import Mathlib.Data.List.Basic

/-!
# Receiving a stream in pieces

A stream comes in as a list of pieces, none of them empty. A call asks for at most `k` elements and gets those of the first
piece, so where the stream is cut decides what a call returns. A loop that asks for what is missing gets what it needs however
the stream is cut, and a single call does as long as no cut lies inside what it asks for.
-/

namespace Receive

variable {α : Type*}

/-- One call for at most `k` elements: what it returns, and the pieces that are left. At the end it returns nothing. -/
def recv (k : ℕ) : List (List α) → List α × List (List α)
  | [] => ([], [])
  | p :: ps => if p.length ≤ k then (p, ps) else (p.take k, p.drop k :: ps)

/-- The pieces hold no empty one. -/
def Proper (ps : List (List α)) : Prop := ∀ p ∈ ps, p ≠ []

/-- The number of elements in the pieces. -/
def total (ps : List (List α)) : ℕ := ps.flatten.length

/-- A first piece that is not longer than what a call asks for. -/
theorem recv_cons_of_le {k : ℕ} {p : List α} (h : p.length ≤ k) (ps : List (List α)) : recv k (p :: ps) = (p, ps) :=
  if_pos h

/-- A first piece that is longer. -/
theorem recv_cons_of_lt {k : ℕ} {p : List α} (h : k < p.length) (ps : List (List α)) :
    recv k (p :: ps) = (p.take k, p.drop k :: ps) :=
  if_neg (Nat.not_le.mpr h)

/-- A call splits the stream. -/
@[simp] theorem recv_append (k : ℕ) (ps : List (List α)) : (recv k ps).1 ++ (recv k ps).2.flatten = ps.flatten := by
  cases ps with
  | nil => rfl
  | cons p ps =>
    rcases Nat.lt_or_ge k p.length with hlt | hle
    · rw [recv_cons_of_lt hlt, List.flatten_cons, List.flatten_cons, ← List.append_assoc, List.take_append_drop]
    · rw [recv_cons_of_le hle, List.flatten_cons]

theorem length_recv_le (k : ℕ) (ps : List (List α)) : (recv k ps).1.length ≤ k := by
  cases ps with
  | nil => exact Nat.zero_le k
  | cons p ps =>
    rcases Nat.lt_or_ge k p.length with hlt | hle
    · rw [recv_cons_of_lt hlt]
      exact List.length_take_le k p
    · rw [recv_cons_of_le hle]
      exact hle

/-- The pieces that are left hold no empty one. -/
theorem Proper.recv {ps : List (List α)} (h : Proper ps) (k : ℕ) : Proper (recv k ps).2 := by
  cases ps with
  | nil => exact h
  | cons p ps =>
    obtain ⟨-, hps⟩ := List.forall_mem_cons.mp h
    rcases Nat.lt_or_ge k p.length with hlt | hle
    · rw [recv_cons_of_lt hlt]
      refine List.forall_mem_cons.mpr ⟨?_, hps⟩
      rw [ne_eq, List.drop_eq_nil_iff]
      exact Nat.not_le.mpr hlt
    · rw [recv_cons_of_le hle]
      exact hps

/-- A call returns nothing only at the end. -/
theorem recv_eq_nil_iff {k : ℕ} {ps : List (List α)} (hk : 0 < k) (h : Proper ps) : (recv k ps).1 = [] ↔ ps = [] := by
  cases ps with
  | nil => exact ⟨fun _ => rfl, fun _ => rfl⟩
  | cons p ps =>
    have hp : p ≠ [] := h p List.mem_cons_self
    rcases Nat.lt_or_ge k p.length with hlt | hle
    · rw [recv_cons_of_lt hlt, List.take_eq_nil_iff]
      simp [Nat.ne_of_gt hk, hp]
    · rw [recv_cons_of_le hle]
      simp [hp]

/-- What a call returns is taken from the stream. -/
theorem total_recv (k : ℕ) (ps : List (List α)) : total (recv k ps).2 + (recv k ps).1.length = total ps := by
  have h := congrArg List.length (recv_append k ps)
  rw [List.length_append] at h
  unfold total
  omega

/-! ## Where the stream is cut -/

/-- The positions where a piece ends. -/
def cuts : List (List α) → List ℕ
  | [] => []
  | p :: ps => p.length :: (cuts ps).map (p.length + ·)

/-- No cut lies strictly inside the `k` elements from a position on. -/
def Whole (k pos : ℕ) (ps : List (List α)) : Prop := ∀ c ∈ cuts ps, c ≤ pos ∨ pos + k ≤ c

instance (k pos : ℕ) (ps : List (List α)) : Decidable (Whole k pos ps) :=
  inferInstanceAs (Decidable (∀ c ∈ cuts ps, _))

/-- The pieces that are left when `j` elements are taken. -/
structure Rest (j : ℕ) (ps ps' : List (List α)) : Prop where
  stream : ps'.flatten = ps.flatten.drop j
  proper : Proper ps'
  cuts : ∀ c, 0 < c → (c ∈ cuts ps' ↔ j + c ∈ cuts ps)

/-- Nothing is taken. -/
theorem Rest.refl {ps : List (List α)} (h : Proper ps) : Rest 0 ps ps where
  stream := rfl
  proper := h
  cuts c _ := by rw [Nat.zero_add]

/-- Some elements are taken, and then some more. -/
theorem Rest.trans {i j : ℕ} {ps ps' ps'' : List (List α)} (h : Rest i ps ps') (h' : Rest j ps' ps'') :
    Rest (i + j) ps ps'' where
  stream := by rw [h'.stream, h.stream, List.drop_drop]
  proper := h'.proper
  cuts c hc := by rw [h'.cuts c hc, h.cuts (j + c) (by omega), Nat.add_assoc]

/-- Past the elements that were taken, the cuts are those of what is left. -/
theorem Rest.whole {j : ℕ} {ps ps' : List (List α)} (h : Rest j ps ps') (k pos : ℕ) :
    Whole k (j + pos) ps ↔ Whole k pos ps' := by
  constructor
  · intro hw c hc
    rcases Nat.eq_zero_or_pos c with rfl | hpos
    · exact Or.inl (Nat.zero_le pos)
    · have hcut := hw (j + c) ((h.cuts c hpos).mp hc)
      omega
  · intro hw c hc
    rcases Nat.lt_or_ge j c with hlt | hle
    · obtain ⟨d, rfl⟩ := Nat.exists_eq_add_of_le (Nat.le_of_lt hlt)
      have hcut := hw d ((h.cuts d (by omega)).mpr hc)
      omega
    · exact Or.inl (by omega)

/-- A call leaves what it does not take. -/
theorem rest_recv {ps : List (List α)} (h : Proper ps) (k : ℕ) : Rest (recv k ps).1.length ps (recv k ps).2 where
  stream := by
    have happend := recv_append k ps
    rw [← happend, List.drop_left]
  proper := h.recv k
  cuts c hc := by
    cases ps with
    | nil =>
      rw [recv, List.length_nil, Nat.zero_add]
    | cons p ps =>
      rcases Nat.lt_or_ge k p.length with hlt | hle
      · simp only [recv_cons_of_lt hlt, cuts, List.length_take, List.length_drop, List.mem_cons, List.mem_map]
        have hmin : min k p.length = k := Nat.min_eq_left (Nat.le_of_lt hlt)
        rw [hmin]
        refine or_congr (by omega) (exists_congr fun d => and_congr_right fun _ => by omega)
      · simp only [recv_cons_of_le hle, cuts, List.mem_cons, List.mem_map]
        constructor
        · intro hcut
          exact Or.inr ⟨c, hcut, rfl⟩
        · rintro (hzero | ⟨d, hd, hsum⟩)
          · omega
          · obtain rfl : d = c := by omega
            exact hd

/-- A single call gets all that it asks for when no cut lies inside. -/
theorem length_recv_eq_iff {k : ℕ} {ps : List (List α)} (hk : k ≤ total ps) (h : Proper ps) :
    (recv k ps).1.length = k ↔ Whole k 0 ps := by
  cases ps with
  | nil =>
    obtain rfl : k = 0 := by simpa [total] using hk
    simp [recv, Whole, cuts]
  | cons p ps =>
    have hp := List.length_pos_iff.mpr (h p List.mem_cons_self)
    rcases Nat.lt_or_ge k p.length with hlt | hle
    · rw [recv_cons_of_lt hlt, List.length_take, Nat.min_eq_left (Nat.le_of_lt hlt)]
      refine iff_of_true rfl fun c hc => Or.inr ?_
      rcases List.mem_cons.mp hc with rfl | hmem
      · omega
      · obtain ⟨d, -, rfl⟩ := List.mem_map.mp hmem
        omega
    · simp only [recv_cons_of_le hle]
      constructor
      · rintro rfl c hc
        rcases List.mem_cons.mp hc with rfl | hmem
        · omega
        · obtain ⟨d, -, rfl⟩ := List.mem_map.mp hmem
          omega
      · intro hw
        have hcut := hw p.length List.mem_cons_self
        omega

/-! ## A loop of calls -/

/-- The loop that calls for what is missing to `n` elements. It returns `none` where the stream ends before. -/
def recvLoop (n : ℕ) (received : List α) (ps : List (List α)) : Option (List α × List (List α)) :=
  if _h : received.length < n then
    if _hchunk : (recv (n - received.length) ps).1 = [] then none
    else recvLoop n (received ++ (recv (n - received.length) ps).1) (recv (n - received.length) ps).2
  else some (received, ps)
termination_by n - received.length
decreasing_by
  have hpos := List.length_pos_iff.mpr _hchunk
  rw [List.length_append]
  omega

/-- The loop returns when it has enough. -/
theorem recvLoop_of_le {n : ℕ} {received : List α} (h : n ≤ received.length) (ps : List (List α)) :
    recvLoop n received ps = some (received, ps) := by
  rw [recvLoop, dif_neg (Nat.not_lt.mpr h)]

/-- What the loop leaves is not more than there was. -/
theorem recvLoop_total {n : ℕ} {received : List α} {ps : List (List α)} {result : List α × List (List α)}
    (h : recvLoop n received ps = some result) : total result.2 ≤ total ps := by
  induction received, ps using recvLoop.induct n with
  | case1 received ps hlt hchunk =>
    rw [recvLoop, dif_pos hlt, dif_pos hchunk] at h
    cases h
  | case2 received ps hlt hchunk ih =>
    rw [recvLoop, dif_pos hlt, dif_neg hchunk] at h
    have htotal := total_recv (n - received.length) ps
    have hrest := ih h
    omega
  | case3 received ps hlt =>
    rw [recvLoop, dif_neg hlt] at h
    cases h
    exact Nat.le_refl _

/-- The loop takes what is missing from the front of the stream, however it is cut. -/
theorem recvLoop_eq {n : ℕ} {received front rest : List α} {ps : List (List α)} (hps : Proper ps)
    (hlen : received.length + front.length = n) (hsplit : ps.flatten = front ++ rest) :
    ∃ ps', recvLoop n received ps = some (received ++ front, ps') ∧ Rest front.length ps ps' := by
  induction hm : front.length using Nat.strongRecOn generalizing received front ps with
  | ind m ih =>
    subst hm
    rcases Nat.eq_zero_or_pos front.length with hzero | hpos
    · obtain rfl : front = [] := List.length_eq_zero_iff.mp hzero
      refine ⟨ps, ?_, Rest.refl hps⟩
      rw [List.append_nil]
      exact recvLoop_of_le (by omega) ps
    · have hk : n - received.length = front.length := by omega
      have hne : ps ≠ [] := by
        rintro rfl
        have hnil := List.append_eq_nil_iff.mp hsplit.symm
        rw [hnil.1] at hpos
        exact absurd hpos (Nat.lt_irrefl 0)
      have hchunk : (recv front.length ps).1 ≠ [] := fun h => hne ((recv_eq_nil_iff hpos hps).mp h)
      have hchunkpos := List.length_pos_iff.mpr hchunk
      have hle := length_recv_le front.length ps
      -- the chunk is the beginning of what is missing
      have hstream : (recv front.length ps).1 = front.take (recv front.length ps).1.length := by
        have htake := congrArg (List.take (recv front.length ps).1.length) (recv_append front.length ps)
        rwa [List.take_left, hsplit, List.take_append_of_le_length hle] at htake
      have hrest := rest_recv hps front.length
      have hless : (front.drop (recv front.length ps).1.length).length < front.length := by
        rw [List.length_drop]
        omega
      have hnext : (received ++ (recv front.length ps).1).length + (front.drop (recv front.length ps).1.length).length = n := by
        rw [List.length_append, List.length_drop]
        omega
      obtain ⟨ps', hloop, hps'⟩ := ih _ hless hrest.proper hnext
        (by rw [hrest.stream, hsplit, List.drop_append_of_le_length hle]) rfl
      refine ⟨ps', ?_, ?_⟩
      · rw [recvLoop, dif_pos (by omega), hk, dif_neg hchunk, hloop, List.append_assoc]
        conv_lhs => rw [hstream]
        rw [List.length_take, Nat.min_eq_left hle, List.take_append_drop]
      · have htrans := hrest.trans hps'
        rwa [List.length_drop, Nat.add_sub_of_le hle] at htrans

end Receive
