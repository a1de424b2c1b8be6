import AuthVideo.Lemmas.StartCodes
import AuthVideo.Lib.Patch
import AuthVideo.Sparse

/-!
# The loops of the sparse encryption

The scanner of `test1.py` finds what that of `test6.py` finds, less a start code at the very end. The loop over the start codes patches
the file at places that lie apart from each other.
-/

namespace AuthVideo

theorem Test1Zuc.length_keystreamWords (words : Nat) (z : PyZuc.State) :
    (Test1Zuc.keystreamWords words z).1.length = 4 * words := by
  induction words generalizing z with
  | zero => rfl
  | succ words ih =>
    have hrest := ih (Test1Zuc.keystreamWord z).2
    simp only [Test1Zuc.keystreamWords, PyZuc.toBytes4, List.length_append, List.length_cons, List.length_nil, hrest]
    omega

/-- `keystream_bytes` gives as many bytes as it is asked for. -/
@[simp] theorem Test1Zuc.length_keystreamBytes (z : PyZuc.State) (n : Nat) : (Test1Zuc.keystreamBytes z n).1.length = n := by
  have hwords := Test1Zuc.length_keystreamWords ((n + 3) / 4) z
  simp only [Test1Zuc.keystreamBytes, List.length_take, hwords]
  omega

namespace Test1

open Segments

/-! ## The scanner -/

/-- A start code with a byte behind it. -/
def Followed (buf : Bytes) (m : Nat × Nat) : Bool := m.1 + m.2 < buf.length

/-- The scanner finds the start codes of the other script that have a byte behind them. -/
theorem findStartCodesFrom_eq (buf : Bytes) (i : Nat) :
    findStartCodesFrom buf i = (AuthVideo.findStartCodesFrom buf i).filter (Followed buf) := by
  fun_induction findStartCodesFrom buf i with
  | case1 i hlt hshort ih =>
    have hlong : ¬slice buf i (i + 4) = START4 := fun h => byte_ne (slice_four_iff.mp h).2.2.1 hshort.2.2
    rw [AuthVideo.findStartCodesFrom, dif_pos (by omega), if_neg hlong, if_pos (slice_three_iff.mpr hshort),
      List.filter_cons_of_pos (by simpa [Followed] using hlt), ih]
  | case2 i hlt hshort hlong ih =>
    rw [AuthVideo.findStartCodesFrom, dif_pos (by omega), if_pos (slice_four_iff.mpr hlong.2),
      List.filter_cons_of_pos (by simpa [Followed] using hlong.1), ih]
  | case3 i hlt hshort hlong ih =>
    have hthree : ¬slice buf i (i + 3) = START3 := fun h => hshort (slice_three_iff.mp h)
    rw [AuthVideo.findStartCodesFrom, dif_pos (by omega), if_neg hthree]
    split
    · rename_i hfour
      -- the long code is the end of the bytes: neither scanner finds anything behind its position
      have hend : ¬i + 4 < buf.length := fun hin => hlong ⟨hin, slice_four_iff.mp hfour⟩
      rw [ih, List.filter_cons_of_neg (by simpa [Followed] using hend), AuthVideo.findStartCodesFrom, dif_neg (by omega),
        AuthVideo.findStartCodesFrom, dif_neg (by omega)]
    · exact ih
  | case4 i hlt =>
    rw [AuthVideo.findStartCodesFrom, dif_neg (by omega)]
    rfl

theorem findStartCodes_eq (buf : Bytes) : findStartCodes buf = (AuthVideo.findStartCodes buf).filter (Followed buf) :=
  findStartCodesFrom_eq buf 0

/-- The start codes lie one after the other. -/
theorem spaced_codes (buf : Bytes) : Spaced buf.length 0 (findStartCodes buf) := by
  rw [findStartCodes_eq]
  exact (spaced_findStartCodes buf).filter _

/-- Each of them has a byte behind it. -/
theorem followed_of_mem {buf : Bytes} {m : Nat × Nat} (h : m ∈ findStartCodes buf) : m.1 + m.2 < buf.length := by
  rw [findStartCodes_eq] at h
  simpa [Followed] using (List.mem_filter.mp h).2

/-- Every long start code with a byte behind it is found. -/
theorem mem_codes_four {buf : Bytes} {pos : Nat} (h : Occ4 buf pos) (hfollowed : pos + 4 < buf.length) :
    (pos, 4) ∈ findStartCodes buf := by
  rw [findStartCodes_eq]
  exact List.mem_filter.mpr ⟨mem_findStartCodesFrom_four h (Nat.zero_le pos), by simpa [Followed] using hfollowed⟩

/-- Every short one with a byte behind it is found, by itself or as the tail of a long one. -/
theorem mem_codes_three {buf : Bytes} {pos : Nat} (h : Occ3 buf pos) :
    (pos, 3) ∈ findStartCodes buf ∨ ∃ q, q + 1 = pos ∧ (q, 4) ∈ findStartCodes buf := by
  have hlt := h.1
  rw [findStartCodes_eq]
  rcases mem_findStartCodesFrom_three h (Nat.zero_le pos) with hmem | ⟨q, rfl, hmem⟩
  · refine .inl (List.mem_filter.mpr ⟨hmem, ?_⟩)
    simp only [Followed, decide_eq_true_eq]
    omega
  · refine .inr ⟨q, rfl, List.mem_filter.mpr ⟨hmem, ?_⟩⟩
    simp only [Followed, decide_eq_true_eq]
    omega

/-! ## The positions of a unit -/

/-- The places of the units of a packet: from the header to the next start code. -/
def nalUnits (seg : Bytes) : List (Nat × Nat) := spans seg.length (findStartCodes seg)

/-- The unit is a slice. -/
def isVclUnit (seg : Bytes) (u : Nat × Nat) : Bool := seg[u.1]?.any fun b0 => isVclNal (hevcNalUnitType b0)

/-- Where the positions of a unit start. -/
def payloadStart (u : Nat × Nat) : Nat := u.1 + 2 + skipPrefixBytes

/-- They start behind the header. -/
theorem le_payloadStart (u : Nat × Nat) : u.1 ≤ payloadStart u := Nat.le_trans (Nat.le_add_right _ _) (Nat.le_add_right _ _)

/-- How many positions a unit has. -/
def nalCount (seg : Bytes) (step : Nat) (u : Nat × Nat) : Nat :=
  if isVclUnit seg u then (u.2 - payloadStart u + (step - 1)) / step else 0

/-- The positions of a unit in the file. -/
def nalPositions (pktPos : Nat) (seg : Bytes) (step : Nat) (u : Nat × Nat) : List Nat :=
  List.range' (pktPos + payloadStart u) (nalCount seg step u) step

@[simp] theorem length_nalPositions (pktPos : Nat) (seg : Bytes) (step : Nat) (u : Nat × Nat) :
    (nalPositions pktPos seg step u).length = nalCount seg step u := List.length_range'

/-- A unit has the positions of a slice in front of its end. -/
theorem lt_nalCount_iff {seg : Bytes} {step : Nat} (hstep : 0 < step) {u : Nat × Nat} {k : Nat} :
    k < nalCount seg step u ↔ isVclUnit seg u ∧ payloadStart u + step * k < u.2 := by
  unfold nalCount
  split
  · rename_i hvcl
    have hcount : k < (u.2 - payloadStart u + (step - 1)) / step ↔ step * k + step ≤ u.2 - payloadStart u + (step - 1) := by
      rw [← Nat.succ_le_iff, Nat.le_div_iff_mul_le hstep, Nat.succ_mul, Nat.mul_comm]
    rw [hcount, and_iff_right hvcl]
    omega
  · rename_i hvcl
    exact ⟨fun h => absurd h (Nat.not_lt_zero k), fun h => absurd h.1 hvcl⟩

theorem mem_nalPositions {pktPos : Nat} {seg : Bytes} {step : Nat} (hstep : 0 < step) {u : Nat × Nat} {i : Nat} :
    i ∈ nalPositions pktPos seg step u ↔
      isVclUnit seg u ∧ ∃ k, i = pktPos + (payloadStart u + step * k) ∧ payloadStart u + step * k < u.2 := by
  rw [nalPositions, List.mem_range']
  constructor
  · rintro ⟨k, hk, rfl⟩
    obtain ⟨hvcl, hend⟩ := (lt_nalCount_iff hstep).mp hk
    exact ⟨hvcl, k, Nat.add_assoc _ _ _, hend⟩
  · rintro ⟨hvcl, k, rfl, hend⟩
    exact ⟨k, (lt_nalCount_iff hstep).mpr ⟨hvcl, hend⟩, (Nat.add_assoc _ _ _).symm⟩

/-- They lie behind the header and in front of the end. -/
theorem bounds_of_mem {pktPos : Nat} {seg : Bytes} {step : Nat} (hstep : 0 < step) {u : Nat × Nat} {i : Nat}
    (h : i ∈ nalPositions pktPos seg step u) : pktPos + payloadStart u ≤ i ∧ i < pktPos + u.2 := by
  obtain ⟨-, k, rfl, hend⟩ := (mem_nalPositions hstep).mp h
  exact ⟨Nat.add_le_add_left (Nat.le_add_right _ _) _, Nat.add_lt_add_left hend _⟩

/-! ## The loops -/

/-- The loop over the positions patches the file at them with the bytes of the keystream. -/
theorem xorPositions_eq {ks : Bytes} {i : Nat} {positions : List Nat} {s : Progress} (hks : i + positions.length ≤ ks.length)
    (hmm : ∀ pos ∈ positions, pos < s.mm.length) :
    xorPositions ks i positions s = some { s with
      mm := Patch.apply (· ^^^ ·) s.mm (positions.zip (ks.drop i)), encrypted := s.encrypted + positions.length } := by
  induction positions generalizing i s with
  | nil => rfl
  | cons pos positions ih =>
    rw [List.length_cons] at hks
    have hpos : pos < s.mm.length := hmm pos List.mem_cons_self
    have hi : i < ks.length := by omega
    have hset : s.mm.set pos (s.mm[pos] ^^^ ks[i]) = s.mm.modify pos (· ^^^ ks[i]) := by
      rw [List.modify_eq_set_getElem?, List.getElem?_eq_getElem hpos]
      rfl
    rw [xorPositions, List.getElem?_eq_getElem hpos, List.getElem?_eq_getElem hi]
    simp only [Option.bind_eq_bind, Option.bind_some]
    rw [ih (by omega), List.drop_eq_getElem_cons hi, List.zip_cons_cons, Patch.apply_cons, hset, List.length_cons]
    · simp only [Option.some.injEq, Progress.mk.injEq, true_and]
      omega
    · intro p hp
      rw [List.length_set]
      exact hmm p (List.mem_cons_of_mem pos hp)

/-- The cipher behind some units. -/
def cipherAfter (seg : Bytes) (step : Nat) (us : List (Nat × Nat)) (z : PyZuc.State) : PyZuc.State :=
  us.foldl (fun z u => (Test1Zuc.keystreamBytes z (nalCount seg step u)).2) z

/-- What is laid over the file for some units: each position with its byte of the keystream of the unit. -/
def masks (pktPos : Nat) (seg : Bytes) (step : Nat) : List (Nat × Nat) → PyZuc.State → List (Nat × UInt8)
  | [], _ => []
  | u :: us, z =>
    (nalPositions pktPos seg step u).zip (Test1Zuc.keystreamBytes z (nalCount seg step u)).1 ++
      masks pktPos seg step us (Test1Zuc.keystreamBytes z (nalCount seg step u)).2

/-- The positions of a slice are those of the source. -/
theorem range_eq (pktPos : Nat) {seg : Bytes} (step : Nat) {u : Nat × Nat} (hvcl : isVclUnit seg u) :
    range (pktPos + u.1 + 2 + skipPrefixBytes) (pktPos + u.2) step = nalPositions pktPos seg step u := by
  have hfirst : pktPos + u.1 + 2 + skipPrefixBytes = pktPos + payloadStart u := by
    rw [payloadStart]
    omega
  rw [range, nalPositions, nalCount, if_pos hvcl, hfirst, Nat.add_sub_add_left]

/-- What the body of the loop does for a unit: it lays the keystream of the unit over the file. -/
def Progress.mask (pktPos : Nat) (seg : Bytes) (step : Nat) (u : Nat × Nat) (s : Progress) : Progress :=
  let out := Test1Zuc.keystreamBytes s.zuc (nalCount seg step u)
  ⟨out.2, Patch.apply (· ^^^ ·) s.mm ((nalPositions pktPos seg step u).zip out.1), s.encrypted + nalCount seg step u⟩

/-- A unit without positions leaves everything, as a call for no bytes leaves the cipher. -/
theorem Progress.mask_of_zero {pktPos : Nat} {seg : Bytes} {step : Nat} {u : Nat × Nat} (h : nalCount seg step u = 0) (s : Progress) :
    s.mask pktPos seg step u = s := by
  have hpositions : nalPositions pktPos seg step u = [] := by
    rw [← List.length_eq_zero_iff, length_nalPositions, h]
  rw [Progress.mask, h, hpositions]
  rfl

/-- The body of the loop does this for the unit behind its start code, whether it skips it or not. -/
theorem encryptNal_eq {pktPos : Nat} {seg : Bytes} {step scPos scLen : Nat} {rest : List (Nat × Nat)} {s : Progress}
    (hstep : 0 < step) (hfollowed : scPos + scLen < seg.length) (hend : next seg.length rest ≤ seg.length)
    (hmm : pktPos + seg.length ≤ s.mm.length) :
    encryptNal pktPos seg step scPos scLen rest s = some (s.mask pktPos seg step (scPos + scLen, next seg.length rest)) := by
  obtain ⟨u, hu⟩ : ∃ u, u = (scPos + scLen, next seg.length rest) := ⟨_, rfl⟩
  have hzero : ¬payloadStart u < u.2 → nalCount seg step u = 0 := fun h =>
    Nat.eq_zero_of_not_pos fun hpos => h ((lt_nalCount_iff hstep).mp hpos).2
  obtain ⟨b0, hb0⟩ : ∃ b0, seg[scPos + scLen]? = some b0 := ⟨_, List.getElem?_eq_getElem hfollowed⟩
  have hvcl : isVclUnit seg u = isVclNal (hevcNalUnitType b0) := by
    rw [isVclUnit, hu, hb0, Option.any_some]
  have hstart : payloadStart u = scPos + scLen + 2 + skipPrefixBytes := by rw [hu, payloadStart]
  have hstop : u.2 = next seg.length rest := by rw [hu]
  rw [← hu]
  unfold encryptNal
  simp only [hb0, Option.bind_eq_bind, Option.bind_some]
  split
  · rw [Progress.mask_of_zero (hzero (by omega))]
  · split
    · rename_i hskip
      rw [Progress.mask_of_zero]
      rw [nalCount, if_neg (by rwa [hvcl])]
    · rename_i hslice
      rw [not_not, ← hvcl] at hslice
      split
      · rw [Progress.mask_of_zero (hzero (by omega))]
      · have hpositions := range_eq pktPos step hslice
        rw [hu] at hpositions
        rw [hpositions, ← hu, length_nalPositions, Progress.mask]
        have hlen := Test1Zuc.length_keystreamBytes s.zuc (nalCount seg step u)
        generalize Test1Zuc.keystreamBytes s.zuc (nalCount seg step u) = out at hlen ⊢
        obtain ⟨ks, zuc⟩ := out
        rw [xorPositions_eq]
        · rw [List.drop_zero, length_nalPositions]
        · rw [Nat.zero_add, length_nalPositions, hlen]
        · intro i hi
          have hbound := (bounds_of_mem hstep hi).2
          exact Nat.lt_of_lt_of_le hbound (Nat.le_trans (Nat.add_le_add_left (hstop ▸ hend) pktPos) hmm)

/-- The step lemma, from the start codes to the units. -/
theorem encryptNals_eq {pktPos : Nat} {seg : Bytes} {step i : Nat} {marks : List (Nat × Nat)} {s : Progress} (hstep : 0 < step)
    (hspaced : Spaced seg.length i marks) (hfollowed : ∀ m ∈ marks, m.1 + m.2 < seg.length)
    (hmm : pktPos + seg.length ≤ s.mm.length) :
    encryptNals pktPos seg step marks s = some ⟨cipherAfter seg step (spans seg.length marks) s.zuc,
      Patch.apply (· ^^^ ·) s.mm (masks pktPos seg step (spans seg.length marks) s.zuc),
      s.encrypted + (masks pktPos seg step (spans seg.length marks) s.zuc).length⟩ := by
  induction marks generalizing i s with
  | nil => rfl
  | cons m marks ih =>
    obtain ⟨pos, len⟩ := m
    have hbody := encryptNal_eq (s := s) hstep (hfollowed (pos, len) List.mem_cons_self) hspaced.2.next.2 hmm
    have hrest : ∀ m ∈ marks, m.1 + m.2 < seg.length := fun m hm => hfollowed m (List.mem_cons_of_mem _ hm)
    rw [encryptNals, hbody]
    simp only [Option.bind_eq_bind, Option.bind_some]
    rw [ih hspaced.2 hrest]
    · simp only [Progress.mask, spans, masks, cipherAfter, List.foldl_cons, Patch.apply_append, List.length_append, List.length_zip,
        length_nalPositions, Test1Zuc.length_keystreamBytes, Nat.min_self, Nat.add_assoc]
    · rw [Progress.mask, Patch.length_apply]
      exact hmm

/-! ## What is laid over the file -/

section Masks

variable {pktPos : Nat} {seg : Bytes} {step : Nat}

/-- The places are the positions of the units. -/
theorem map_fst_masks (us : List (Nat × Nat)) (z : PyZuc.State) :
    (masks pktPos seg step us z).map Prod.fst = us.flatMap (nalPositions pktPos seg step) := by
  induction us generalizing z with
  | nil => rfl
  | cons u us ih =>
    rw [masks, List.map_append, ih, List.map_fst_zip, List.flatMap_cons]
    rw [length_nalPositions, Test1Zuc.length_keystreamBytes]

/-- Units that lie apart have different positions. -/
theorem nodup_positions (hstep : 0 < step) {us : List (Nat × Nat)} (h : us.Pairwise fun u v => u.2 ≤ v.1) :
    (us.flatMap (nalPositions pktPos seg step)).Nodup := by
  refine List.nodup_flatMap.mpr ⟨fun u _ => List.nodup_range' step hstep, h.imp ?_⟩
  intro u v huv i hu hv
  have hend := (bounds_of_mem hstep hu).2
  have hstart := (bounds_of_mem hstep hv).1
  have hheader := le_payloadStart v
  omega

/-- Each position of a unit has its byte of the keystream that is made behind the units in front. -/
theorem mem_masks (pktPos : Nat) (before after : List (Nat × Nat)) {u : Nat × Nat} (z : PyZuc.State) {k : Nat}
    (hk : k < nalCount seg step u) :
    ∃ c, (Test1Zuc.keystreamBytes (cipherAfter seg step before z) (nalCount seg step u)).1[k]? = some c ∧
      (pktPos + (payloadStart u + step * k), c) ∈ masks pktPos seg step (before ++ u :: after) z := by
  induction before generalizing z with
  | nil =>
    have hlen := Test1Zuc.length_keystreamBytes z (nalCount seg step u)
    obtain ⟨c, hc⟩ : ∃ c, (Test1Zuc.keystreamBytes z (nalCount seg step u)).1[k]? = some c :=
      ⟨_, List.getElem?_eq_getElem (hlen.symm ▸ hk)⟩
    have hpos : (nalPositions pktPos seg step u)[k]? = some (pktPos + (payloadStart u + step * k)) := by
      rw [nalPositions, List.getElem?_range' hk, Nat.add_assoc]
    refine ⟨c, hc, List.mem_append_left _ (List.mem_of_getElem? (i := k) ?_)⟩
    rw [List.getElem?_zip_eq_some]
    exact ⟨hpos, hc⟩
  | cons v before ih =>
    obtain ⟨c, hc, hmem⟩ := ih (Test1Zuc.keystreamBytes z (nalCount seg step v)).2
    exact ⟨c, hc, List.mem_append_right _ hmem⟩

end Masks

end Test1

end AuthVideo
