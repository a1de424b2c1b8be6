import AuthVideo.Lemmas.Passes

/-!
# Theorem 53: the start codes of a stream

The scanner of `test6.py` and `dec_error.py` jumps over each code it finds and stops in front of the last 3 bytes. What it finds is
compared with the occurrences of the two codes.
-/

namespace AuthVideo

open Segments

/-- The bytes at a mark are a start code, and the mark has its length. -/
def HoldsCode (data : Bytes) (m : Nat × Nat) : Prop :=
  (m.2 = 4 ∧ slice data m.1 (m.1 + 4) = START4) ∨ (m.2 = 3 ∧ slice data m.1 (m.1 + 3) = START3)

/-- A stream that begins with a start code, and is not a bare short one, is what its codes and the bytes between them make up. -/
theorem joinAnnexbNalus_cut {data : Bytes} (hbegin : BeginsWithStartCode data) (hbare : data ≠ START3) :
    joinAnnexbNalus (cut data (findStartCodes data)) = data := by
  have hlong : 3 < data.length := by
    rcases hbegin with h | h
    · have hocc : Occ4 data 0 := h
      have hfirst := hocc.lt
      omega
    · obtain ⟨-, -, hlast⟩ := slice_three_iff.mp h
      have hlen : 2 < data.length := (List.getElem?_eq_some_iff.mp hlast).1
      have hne : data.length ≠ 3 := by
        intro h3
        refine hbare ?_
        rwa [slice, List.drop_zero, List.take_of_length_le (Nat.le_of_eq h3)] at h
      omega
  rw [join_eq_joinAnnexbNalus, join_cut data (spaced_findStartCodes data), (findStartCodes_begins hbegin hlong).2,
    List.drop_zero]

/-- Theorem 53 (start codes). The positions found increase, the codes do not overlap, each is where the bytes are, none is missed
in front of the last 3 bytes, and a stream that begins with a code is put together again from what it is cut into, unless it is a
short code and nothing else. -/
theorem find_start_codes_exact (data : Bytes) :
    (findStartCodes data).Pairwise (fun u v => u.1 < v.1 ∧ u.1 + u.2 ≤ v.1) ∧
      (∀ m ∈ findStartCodes data, HoldsCode data m ∧ m.1 + m.2 ≤ data.length) ∧
      (∀ pos < data.length - 3, slice data pos (pos + 3) = START3 →
        (pos, 3) ∈ findStartCodes data ∨ ∃ q, q + 1 = pos ∧ (q, 4) ∈ findStartCodes data) ∧
      (BeginsWithStartCode data → data ≠ START3 → joinAnnexbNalus (cut data (findStartCodes data)) = data) := by
  have hspaced := spaced_findStartCodes data
  have hholds : ∀ m ∈ findStartCodes data, HoldsCode data m := by
    intro m hm
    rcases occ_of_mem_findStartCodesFrom hm with ⟨h4, hocc⟩ | ⟨h3, hocc⟩
    · exact .inl ⟨h4, hocc⟩
    · exact .inr ⟨h3, hocc.2⟩
  have hpositive : ∀ m ∈ findStartCodes data, 0 < m.2 := by
    intro m hm
    rcases hholds m hm with ⟨h4, -⟩ | ⟨h3, -⟩ <;> omega
  refine ⟨?_, fun m hm => ⟨hholds m hm, hspaced.end_le hm⟩, ?_, joinAnnexbNalus_cut⟩
  · refine hspaced.pairwise.imp_of_mem ?_
    intro u v hu hv hle
    have := hpositive u hu
    exact ⟨by omega, hle⟩
  · intro pos hpos hcode
    exact mem_findStartCodesFrom_three ⟨hpos, hcode⟩ (Nat.zero_le pos)

/-- In the string `00 00 01` no start code is found, and nothing is joined. -/
theorem bare_start_code : BeginsWithStartCode START3 ∧ findStartCodes START3 = [] ∧
    ¬∀ data : Bytes, BeginsWithStartCode data → joinAnnexbNalus (cut data (findStartCodes data)) = data := by
  have hbegin : BeginsWithStartCode START3 := .inr rfl
  have hnone : findStartCodes START3 = [] := findStartCodes_short (by decide)
  refine ⟨hbegin, hnone, ?_⟩
  intro hall
  have hjoin := hall START3 hbegin
  rw [hnone] at hjoin
  exact absurd hjoin (by decide)

end AuthVideo
