import AuthVideo.AnnexB

/-!
# What the start-code scanner finds

The scanner finds every occurrence of a start code, the short one possibly as the tail of a long one, and nothing else. So the
start codes of a stream depend on its occurrences only.
-/

namespace AuthVideo

open Segments

/-! ## Occurrences -/

/-- The long start code stands at a position. -/
def Occ4 (data : Bytes) (pos : Nat) : Prop := slice data pos (pos + 4) = START4

/-- The short start code stands at a position, with a byte behind it. -/
def Occ3 (data : Bytes) (pos : Nat) : Prop := pos < data.length - 3 ∧ slice data pos (pos + 3) = START3

theorem slice_four_iff {data : Bytes} {pos : Nat} :
    slice data pos (pos + 4) = START4 ↔
      data[pos]? = some 0 ∧ data[pos + 1]? = some 0 ∧ data[pos + 2]? = some 0 ∧ data[pos + 3]? = some 1 := by
  have hget : ∀ k, data[pos + k]? = (data.drop pos)[k]? := fun k => (List.getElem?_drop ..).symm
  rw [show data[pos]? = data[pos + 0]? from rfl, hget, hget, hget, hget, slice, Nat.add_sub_cancel_left, START4]
  rcases data.drop pos with _ | ⟨a, _ | ⟨b, _ | ⟨c, _ | ⟨e, l⟩⟩⟩⟩ <;> simp

theorem slice_three_iff {data : Bytes} {pos : Nat} :
    slice data pos (pos + 3) = START3 ↔
      data[pos]? = some 0 ∧ data[pos + 1]? = some 0 ∧ data[pos + 2]? = some 1 := by
  have hget : ∀ k, data[pos + k]? = (data.drop pos)[k]? := fun k => (List.getElem?_drop ..).symm
  rw [show data[pos]? = data[pos + 0]? from rfl, hget, hget, hget, slice, Nat.add_sub_cancel_left, START3]
  rcases data.drop pos with _ | ⟨a, _ | ⟨b, _ | ⟨c, l⟩⟩⟩ <;> simp

/-- The long start code stands inside the stream. -/
theorem Occ4.lt {data : Bytes} {pos : Nat} (h : Occ4 data pos) : pos < data.length - 3 := by
  have hget := (slice_four_iff.mp h).2.2.2
  have hlt := (List.getElem?_eq_some_iff.mp hget).1
  omega

/-- A byte of a stream is one byte. -/
theorem byte_ne {data : Bytes} {i : Nat} (h0 : data[i]? = some 0) (h1 : data[i]? = some 1) : False := by
  rw [h0] at h1
  cases h1

/-! ## The scanner -/

/-- The scanner looks at the occurrences only. -/
theorem findStartCodesFrom_congr {d e : Bytes} (hlen : d.length = e.length) (h4 : ∀ pos, Occ4 d pos ↔ Occ4 e pos)
    (h3 : ∀ pos, Occ3 d pos ↔ Occ3 e pos) (i : Nat) : findStartCodesFrom d i = findStartCodesFrom e i := by
  fun_induction findStartCodesFrom d i with
  | case1 i hi hcode ih =>
    have hcode' : slice e i (i + 4) = START4 := (h4 i).mp hcode
    rw [ih, findStartCodesFrom.eq_def e i, dif_pos (hlen ▸ hi), if_pos hcode']
  | case2 i hi hcode hshort ih =>
    have hcode' : ¬slice e i (i + 4) = START4 := fun h => hcode ((h4 i).mpr h)
    have hshort' : slice e i (i + 3) = START3 := ((h3 i).mp ⟨hi, hshort⟩).2
    rw [ih, findStartCodesFrom.eq_def e i, dif_pos (hlen ▸ hi), if_neg hcode', if_pos hshort']
  | case3 i hi hcode hshort ih =>
    have hcode' : ¬slice e i (i + 4) = START4 := fun h => hcode ((h4 i).mpr h)
    have hshort' : ¬slice e i (i + 3) = START3 := fun h => hshort ((h3 i).mpr ⟨hlen ▸ hi, h⟩).2
    rw [ih, findStartCodesFrom.eq_def e i, dif_pos (hlen ▸ hi), if_neg hcode', if_neg hshort']
  | case4 i hi =>
    rw [findStartCodesFrom.eq_def e i, dif_neg (hlen ▸ hi)]

/-- What is found are occurrences. -/
theorem occ_of_mem_findStartCodesFrom {data : Bytes} {i : Nat} {m : Nat × Nat} (hm : m ∈ findStartCodesFrom data i) :
    (m.2 = 4 ∧ Occ4 data m.1) ∨ (m.2 = 3 ∧ Occ3 data m.1) := by
  fun_induction findStartCodesFrom data i with
  | case1 i hi hcode ih =>
    rcases List.mem_cons.mp hm with rfl | hm
    · exact .inl ⟨rfl, hcode⟩
    · exact ih hm
  | case2 i hi hcode hshort ih =>
    rcases List.mem_cons.mp hm with rfl | hm
    · exact .inr ⟨rfl, hi, hshort⟩
    · exact ih hm
  | case3 i hi hcode hshort ih => exact ih hm
  | case4 => cases hm

/-- Every long start code from the position on is found: none can overlap one that was found before it. -/
theorem mem_findStartCodesFrom_four {data : Bytes} {i pos : Nat} (h : Occ4 data pos) (hi : i ≤ pos) :
    (pos, 4) ∈ findStartCodesFrom data i := by
  obtain ⟨b0, b1, b2, b3⟩ := slice_four_iff.mp h
  fun_induction findStartCodesFrom data i with
  | case1 i hlt hcode ih =>
    obtain ⟨c0, c1, c2, c3⟩ := slice_four_iff.mp hcode
    rcases Nat.eq_or_lt_of_le hi with rfl | hlt'
    · exact List.mem_cons_self
    · refine List.mem_cons_of_mem _ (ih ?_)
      by_contra hgap
      obtain rfl | rfl | rfl : pos = i + 1 ∨ pos = i + 2 ∨ pos = i + 3 := by omega
      · exact byte_ne b2 c3
      · exact byte_ne b1 c3
      · exact byte_ne b0 c3
  | case2 i hlt hcode hshort ih =>
    obtain ⟨c0, c1, c2⟩ := slice_three_iff.mp hshort
    rcases Nat.eq_or_lt_of_le hi with rfl | hlt'
    · exact absurd h hcode
    · refine List.mem_cons_of_mem _ (ih ?_)
      by_contra hgap
      obtain rfl | rfl : pos = i + 1 ∨ pos = i + 2 := by omega
      · exact byte_ne b1 c2
      · exact byte_ne b0 c2
  | case3 i hlt hcode hshort ih =>
    rcases Nat.eq_or_lt_of_le hi with rfl | hlt'
    · exact absurd h hcode
    · exact ih hlt'
  | case4 i hlt =>
    have := h.lt
    omega

/-- Every short start code from the position on is found, by itself or as the tail of a long one. -/
theorem mem_findStartCodesFrom_three {data : Bytes} {i pos : Nat} (h : Occ3 data pos) (hi : i ≤ pos) :
    (pos, 3) ∈ findStartCodesFrom data i ∨ ∃ q, q + 1 = pos ∧ (q, 4) ∈ findStartCodesFrom data i := by
  obtain ⟨b0, b1, b2⟩ := slice_three_iff.mp h.2
  have hpos := h.1
  fun_induction findStartCodesFrom data i with
  | case1 i hlt hcode ih =>
    obtain ⟨c0, c1, c2, c3⟩ := slice_four_iff.mp hcode
    rcases Nat.eq_or_lt_of_le hi with rfl | hlt'
    · exact absurd b2 fun h1 => byte_ne c2 h1
    · by_cases htail : i + 1 = pos
      · exact .inr ⟨i, htail, List.mem_cons_self⟩
      · have hnext : i + 4 ≤ pos := by
          by_contra hgap
          obtain rfl | rfl : pos = i + 2 ∨ pos = i + 3 := by omega
          · exact byte_ne b1 c3
          · exact byte_ne b0 c3
        rcases ih hnext with hmem | ⟨q, hq, hmem⟩
        · exact .inl (List.mem_cons_of_mem _ hmem)
        · exact .inr ⟨q, hq, List.mem_cons_of_mem _ hmem⟩
  | case2 i hlt hcode hshort ih =>
    obtain ⟨c0, c1, c2⟩ := slice_three_iff.mp hshort
    rcases Nat.eq_or_lt_of_le hi with rfl | hlt'
    · exact .inl List.mem_cons_self
    · have hnext : i + 3 ≤ pos := by
        by_contra hgap
        obtain rfl | rfl : pos = i + 1 ∨ pos = i + 2 := by omega
        · exact byte_ne b1 c2
        · exact byte_ne b0 c2
      rcases ih hnext with hmem | ⟨q, hq, hmem⟩
      · exact .inl (List.mem_cons_of_mem _ hmem)
      · exact .inr ⟨q, hq, List.mem_cons_of_mem _ hmem⟩
  | case3 i hlt hcode hshort ih =>
    rcases Nat.eq_or_lt_of_le hi with rfl | hlt'
    · exact absurd h.2 hshort
    · exact ih hlt'
  | case4 i hlt => omega

/-- The start codes lie one after the other. -/
theorem spaced_findStartCodesFrom {data : Bytes} {i : Nat} (hi : i ≤ data.length) :
    Spaced data.length i (findStartCodesFrom data i) := by
  fun_induction findStartCodesFrom data i with
  | case1 i hlt hcode ih => exact ⟨Nat.le_refl i, ih (by omega)⟩
  | case2 i hlt hcode hshort ih => exact ⟨Nat.le_refl i, ih (by omega)⟩
  | case3 i hlt hcode hshort ih =>
    have h := ih (by omega)
    cases hcodes : findStartCodesFrom data (i + 1) with
    | nil => exact hi
    | cons m marks =>
      rw [hcodes] at h
      exact ⟨Nat.le_of_succ_le h.1, h.2⟩
  | case4 i hlt => exact hi

theorem spaced_findStartCodes (data : Bytes) : Spaced data.length 0 (findStartCodes data) :=
  spaced_findStartCodesFrom (Nat.zero_le _)

/-- Where the start codes of a stream stand in another of its length, so do its occurrences. -/
theorem occ_of_codes {d e : Bytes} (hlen : d.length = e.length)
    (h : ∀ m ∈ findStartCodes d, slice e m.1 (m.1 + m.2) = slice d m.1 (m.1 + m.2)) :
    (∀ pos, Occ4 d pos → Occ4 e pos) ∧ ∀ pos, Occ3 d pos → Occ3 e pos := by
  have hfour : ∀ pos, (pos, 4) ∈ findStartCodes d → Occ4 e pos := by
    intro pos hmem
    rcases occ_of_mem_findStartCodesFrom hmem with ⟨-, hocc⟩ | ⟨h43, -⟩
    · exact (h _ hmem).trans hocc
    · cases h43
  refine ⟨fun pos hocc => hfour pos (mem_findStartCodesFrom_four hocc (Nat.zero_le pos)), ?_⟩
  intro pos hocc
  rcases mem_findStartCodesFrom_three hocc (Nat.zero_le pos) with hmem | ⟨q, rfl, hmem⟩
  · exact ⟨hlen ▸ hocc.1, (h _ hmem).trans hocc.2⟩
  · obtain ⟨-, b1, b2, b3⟩ := slice_four_iff.mp (hfour q hmem)
    exact ⟨hlen ▸ hocc.1, slice_three_iff.mpr ⟨b1, b2, b3⟩⟩

/-- Two streams whose start codes stand in one another have the same start codes. -/
theorem findStartCodes_eq {d e : Bytes} (hlen : d.length = e.length)
    (hd : ∀ m ∈ findStartCodes d, slice e m.1 (m.1 + m.2) = slice d m.1 (m.1 + m.2))
    (he : ∀ m ∈ findStartCodes e, slice d m.1 (m.1 + m.2) = slice e m.1 (m.1 + m.2)) :
    findStartCodes d = findStartCodes e := by
  obtain ⟨hd4, hd3⟩ := occ_of_codes hlen hd
  obtain ⟨he4, he3⟩ := occ_of_codes hlen.symm he
  exact findStartCodesFrom_congr hlen (fun pos => ⟨hd4 pos, he4 pos⟩) (fun pos => ⟨hd3 pos, he3 pos⟩) 0

end AuthVideo
