import AuthVideo.Lemmas.AnnexB

/-!
# When two passes give the stream back

A pass is a loop over the units with some rule for the next index. Two passes with the same key give the stream back exactly
when the first mask leaves the start codes alone and each unit is masked with the same keystream twice.
-/

namespace AuthVideo

open Segments

/-! ## The loops as one -/

/-- The index that a loop gives to each unit. -/
def indices (next : Nat → Bool → Nat) (skip : Nat) : Nat → List (Bytes × Bytes) → List Nat
  | _, [] => []
  | i, p :: ps => i :: indices next skip (next i (decide (Masked skip p.2))) ps

/-- The encryptor counts the units that it masks. -/
def encNext (i : Nat) (masked : Bool) : Nat := if masked then i + 1 else i

/-- The decryptor counts all units. -/
def decNext (i : Nat) (_ : Bool) : Nat := i + 1

/-- On units that are all masked the two loops count alike. -/
theorem indices_of_masked {skip : Nat} {ps : List (Bytes × Bytes)} (h : ∀ p ∈ ps, Masked skip p.2) (i : Nat) :
    indices encNext skip i ps = indices decNext skip i ps := by
  induction ps generalizing i with
  | nil => rfl
  | cons p ps ih =>
    rw [List.forall_mem_cons] at h
    rw [indices, indices, decide_eq_true h.1]
    exact congrArg (i :: ·) (ih h.2 (i + 1))

/-- A piece of a stream after a pass. -/
def Sha256.maskPiece (H : Sha256) (key : Bytes) (skip : Nat) (p : Bytes × Bytes) (i : Nat) : Bytes × Bytes :=
  if Masked skip p.2 then (p.1, H.maskNalu key skip p.2 i) else p

/-- The indices of the masked units fit into 32 bits. -/
def IndicesFit (skip : Nat) (ps : List (Bytes × Bytes)) (is : List Nat) : Prop :=
  ∀ q ∈ ps.zip is, Masked skip q.1.2 → q.2 < 2 ^ 32

instance (skip : Nat) (ps : List (Bytes × Bytes)) (is : List Nat) : Decidable (IndicesFit skip ps is) :=
  inferInstanceAs (Decidable (∀ q ∈ ps.zip is, _))

/-- The two checks on the type and the one on the length make up `Masked`. -/
theorem masked_iff {skip : Nat} {nalu : Bytes} :
    Masked skip nalu ↔ hevcNalUnitType nalu ∉ keepPlaintextTypes ∧ ¬hevcNalUnitType nalu ∉ iOnlyTypes ∧
      ¬(nalu.drop 2).length ≤ skip := by
  simp only [Masked, not_not, Nat.not_le]

section Passes

variable (H : Sha256) (key : Bytes) (skip : Nat)

/-- The loop of a pass with a rule for the next index. -/
def Sha256.passLoop (next : Nat → Bool → Nat) : Nat → List (Bytes × Bytes) → Except PyError (List (Bytes × Bytes))
  | _, [] => .ok []
  | i, (sc, nalu) :: ps =>
    if Masked skip nalu then do
      let nalu' ← H.xorNalu key skip nalu i
      let out ← Sha256.passLoop next (next i true) ps
      return (sc, nalu') :: out
    else do
      let out ← Sha256.passLoop next (next i false) ps
      return (sc, nalu) :: out

/-- The loop of the encryptor. -/
theorem hevcXorIOnlyLoop_eq (i : Nat) (ps : List (Bytes × Bytes)) :
    H.hevcXorIOnlyLoop key skip i ps = H.passLoop key skip encNext i ps := by
  induction ps generalizing i with
  | nil => rfl
  | cons p ps ih =>
    obtain ⟨sc, nalu⟩ := p
    simp only [Sha256.hevcXorIOnlyLoop, Sha256.passLoop, masked_iff, ih, encNext, if_true]
    split_ifs <;> simp_all

/-- The loop of the decryptor. -/
theorem hevcXorIOnlyDecLoop_eq (i : Nat) (ps : List (Bytes × Bytes)) :
    H.hevcXorIOnlyDecLoop key skip i ps = H.passLoop key skip decNext i ps := by
  induction ps generalizing i with
  | nil => rfl
  | cons p ps ih =>
    obtain ⟨sc, nalu⟩ := p
    simp only [Sha256.hevcXorIOnlyDecLoop, Sha256.passLoop, masked_iff, ih, decNext]
    split_ifs <;> simp_all

/-- A loop masks each unit under its index, or raises at an index that does not fit. -/
theorem passLoop_eq_ok_iff (next : Nat → Bool → Nat) (i : Nat) (ps out : List (Bytes × Bytes)) :
    H.passLoop key skip next i ps = .ok out ↔
      IndicesFit skip ps (indices next skip i ps) ∧
        out = List.zipWith (H.maskPiece key skip) ps (indices next skip i ps) := by
  induction ps generalizing i out with
  | nil =>
    simp only [Sha256.passLoop, IndicesFit, indices, List.zip_nil_left, List.zipWith_nil_left, List.not_mem_nil,
      false_imp_iff, implies_true, true_and, Except.ok.injEq, eq_comm]
  | cons p ps ih =>
    obtain ⟨sc, nalu⟩ := p
    have hcons : ∀ j, IndicesFit skip ((sc, nalu) :: ps) (i :: j) ↔
        (Masked skip nalu → i < 2 ^ 32) ∧ IndicesFit skip ps j := by
      intro j
      simp only [IndicesFit, List.zip_cons_cons, List.forall_mem_cons]
    by_cases hm : Masked skip nalu
    · simp only [Sha256.passLoop, if_pos hm, indices, decide_eq_true hm, hcons, List.zipWith_cons_cons, xorNalu_eq,
        Sha256.maskPiece, bind_eq_ok, ih, pure_eq_ok]
      constructor
      · rintro ⟨nalu', hnalu, rest, ⟨hfit, rfl⟩, hout⟩
        split at hnalu
        · rename_i hi
          cases hnalu
          cases hout
          exact ⟨⟨fun _ => hi, hfit⟩, rfl⟩
        · cases hnalu
      · rintro ⟨⟨hi, hfit⟩, rfl⟩
        exact ⟨_, if_pos (hi hm), _, ⟨hfit, rfl⟩, rfl⟩
    · simp only [Sha256.passLoop, if_neg hm, indices, decide_eq_false hm, hcons, List.zipWith_cons_cons,
        Sha256.maskPiece, bind_eq_ok, ih, pure_eq_ok]
      constructor
      · rintro ⟨rest, ⟨hfit, rfl⟩, hout⟩
        cases hout
        exact ⟨⟨fun h => absurd h hm, hfit⟩, rfl⟩
      · rintro ⟨⟨-, hfit⟩, rfl⟩
        exact ⟨_, ⟨hfit, rfl⟩, rfl⟩

end Passes

/-! ## Pieces after a pass -/

section Pieces

variable {H : Sha256} {key : Bytes} {skip : Nat}

@[simp] theorem length_indices (next : Nat → Bool → Nat) (i : Nat) (ps : List (Bytes × Bytes)) :
    (indices next skip i ps).length = ps.length := by
  induction ps generalizing i with
  | nil => rfl
  | cons p ps ih => rw [indices, List.length_cons, List.length_cons, ih]

/-- A pass keeps the start code and the length. -/
theorem maskPiece_shape (p : Bytes × Bytes) (i : Nat) :
    p.1 = (H.maskPiece key skip p i).1 ∧ p.2.length = (H.maskPiece key skip p i).2.length := by
  unfold Sha256.maskPiece
  split
  · exact ⟨rfl, length_maskNalu.symm⟩
  · exact ⟨rfl, rfl⟩

/-- A pass masks the same units that a further pass masks. -/
theorem masked_maskPiece (p : Bytes × Bytes) (i : Nat) :
    Masked skip (H.maskPiece key skip p i).2 ↔ Masked skip p.2 := by
  unfold Sha256.maskPiece
  split
  · rename_i hm
    exact ⟨fun _ => hm, fun _ => masked_maskNalu hm⟩
  · exact Iff.rfl

theorem sameShape_maskPieces {ps : List (Bytes × Bytes)} {is : List Nat} (hlen : is.length = ps.length) :
    SameShape ps (List.zipWith (H.maskPiece key skip) ps is) := by
  induction ps generalizing is with
  | nil => exact .nil
  | cons p ps ih =>
    obtain _ | ⟨i, is⟩ := is
    · cases hlen
    · exact .cons (maskPiece_shape p i) (ih (Nat.succ.inj hlen))

/-- A further pass gives the units the same indices. -/
theorem indices_maskPieces (next : Nat → Bool → Nat) (j : Nat) {ps : List (Bytes × Bytes)} {is : List Nat}
    (hlen : is.length = ps.length) :
    indices next skip j (List.zipWith (H.maskPiece key skip) ps is) = indices next skip j ps := by
  induction ps generalizing is j with
  | nil => rfl
  | cons p ps ih =>
    obtain _ | ⟨i, is⟩ := is
    · cases hlen
    · rw [List.zipWith_cons_cons, indices, indices, ih _ (Nat.succ.inj hlen)]
      simp only [masked_maskPiece]

theorem indicesFit_maskPieces {ps : List (Bytes × Bytes)} {is js : List Nat} (hlen : is.length = ps.length) :
    IndicesFit skip (List.zipWith (H.maskPiece key skip) ps is) js ↔ IndicesFit skip ps js := by
  induction ps generalizing is js with
  | nil => exact Iff.rfl
  | cons p ps ih =>
    obtain _ | ⟨i, is⟩ := is
    · cases hlen
    · obtain _ | ⟨j, js⟩ := js
      · simp [IndicesFit]
      · have htail : IndicesFit skip (List.zipWith (H.maskPiece key skip) ps is) js ↔ IndicesFit skip ps js :=
          ih (Nat.succ.inj hlen)
        simp only [IndicesFit] at htail
        simp only [IndicesFit, List.zipWith_cons_cons, List.zip_cons_cons, List.forall_mem_cons, masked_maskPiece, htail]

/-- Each masked unit has the same keystream under both of its indices. -/
def Sha256.SameKeystreams (H : Sha256) (key : Bytes) (skip : Nat) (ps : List (Bytes × Bytes)) (is js : List Nat) : Prop :=
  ∀ q ∈ ps.zip (is.zip js), Masked skip q.1.2 → H.keystreamOf key skip q.1.2 q.2.1 = H.keystreamOf key skip q.1.2 q.2.2

instance (H : Sha256) (key : Bytes) (skip : Nat) (ps : List (Bytes × Bytes)) (is js : List Nat) :
    Decidable (H.SameKeystreams key skip ps is js) :=
  inferInstanceAs (Decidable (∀ q ∈ ps.zip (is.zip js), _))

/-- Equal indices make equal keystreams. -/
theorem sameKeystreams_self (ps : List (Bytes × Bytes)) (is : List Nat) : H.SameKeystreams key skip ps is is := by
  intro q hq _
  have hpair := (List.of_mem_zip hq).2
  rw [List.zip, List.zipWith_self] at hpair
  obtain ⟨i, -, hi⟩ := List.mem_map.mp hpair
  rw [← hi]

/-- Two passes give the pieces back exactly when the keystreams agree. -/
theorem maskPieces_maskPieces_iff (hskip : 32 ≤ skip) {ps : List (Bytes × Bytes)} {is js : List Nat}
    (his : is.length = ps.length) (hjs : js.length = ps.length) :
    List.zipWith (H.maskPiece key skip) (List.zipWith (H.maskPiece key skip) ps is) js = ps ↔
      H.SameKeystreams key skip ps is js := by
  induction ps generalizing is js with
  | nil => simp [Sha256.SameKeystreams]
  | cons p ps ih =>
    obtain _ | ⟨i, is⟩ := is
    · cases his
    · obtain _ | ⟨j, js⟩ := js
      · cases hjs
      · have htail := ih (Nat.succ.inj his) (Nat.succ.inj hjs)
        simp only [Sha256.SameKeystreams] at htail
        have hhead : H.maskPiece key skip (H.maskPiece key skip p i) j = p ↔
            (Masked skip p.2 → H.keystreamOf key skip p.2 i = H.keystreamOf key skip p.2 j) := by
          by_cases hm : Masked skip p.2
          · have hfirst : H.maskPiece key skip p i = (p.1, H.maskNalu key skip p.2 i) := if_pos hm
            rw [hfirst, Sha256.maskPiece, if_pos (masked_maskNalu hm), Prod.ext_iff, maskNalu_maskNalu_iff hm hskip]
            simp [hm]
          · have hkeep : ∀ k, H.maskPiece key skip p k = p := fun k => if_neg hm
            simp [hkeep, hm]
        simp only [Sha256.SameKeystreams, List.zipWith_cons_cons, List.zip_cons_cons, List.forall_mem_cons,
          List.cons.injEq, hhead, htail]

/-! ## The mask of a stream -/

/-- The bytes that a pass lays over a stream: nothing over the start codes and the clear bytes. -/
def Sha256.keystreamMask (H : Sha256) (key : Bytes) (skip : Nat) (ps : List (Bytes × Bytes)) (is : List Nat) : Bytes :=
  (List.zipWith (fun p i =>
    if Masked skip p.2 then List.replicate (p.1.length + 2 + skip) 0 ++ H.keystreamOf key skip p.2 i
    else List.replicate (p.1.length + p.2.length) 0) ps is).flatten

theorem xorBytes_append {a b c d : Bytes} (h : a.length = c.length) :
    xorBytes (a ++ b) (c ++ d) = xorBytes a c ++ xorBytes b d := List.zipWith_append h

/-- Zeros change nothing. -/
theorem xorBytes_zeros (a : Bytes) : xorBytes a (List.replicate a.length 0) = a := by
  induction a with
  | nil => rfl
  | cons x a ih =>
    simp only [xorBytes] at ih
    rw [xorBytes, List.length_cons, List.replicate_succ, List.zipWith_cons_cons, ih, UInt8.xor_zero]

/-- A pass lays its mask over the stream. -/
theorem join_maskPieces {ps : List (Bytes × Bytes)} {is : List Nat} (hlen : is.length = ps.length) :
    join (List.zipWith (H.maskPiece key skip) ps is) = xorBytes (join ps) (H.keystreamMask key skip ps is) := by
  induction ps generalizing is with
  | nil => rfl
  | cons p ps ih =>
    obtain _ | ⟨i, is⟩ := is
    · cases hlen
    · obtain ⟨sc, nalu⟩ := p
      have htail := ih (Nat.succ.inj hlen)
      simp only [Sha256.keystreamMask] at htail
      rw [List.zipWith_cons_cons, join_cons, join_cons, htail, Sha256.keystreamMask, List.zipWith_cons_cons,
        List.flatten_cons]
      by_cases hm : Masked skip nalu
      · have hfirst : H.maskPiece key skip (sc, nalu) i = (sc, H.maskNalu key skip nalu i) := if_pos hm
        have hclear : (sc ++ (nalu.take 2 ++ (nalu.drop 2).take skip)).length = sc.length + 2 + skip := by
          have := hm.2.2
          simp only [List.length_append, List.length_take, List.length_drop] at this ⊢
          omega
        have hparts : sc ++ nalu = sc ++ (nalu.take 2 ++ (nalu.drop 2).take skip) ++ (nalu.drop 2).drop skip := by
          rw [List.append_assoc, List.append_assoc, List.take_append_drop, List.take_append_drop]
        have hbody : ((nalu.drop 2).drop skip).length = (H.keystreamOf key skip nalu i).length := length_keystreamOf.symm
        rw [if_pos hm, hfirst, hparts, ← hclear,
          xorBytes_append (by simp only [List.length_append, List.length_replicate, hbody]),
          xorBytes_append (by rw [List.length_replicate]), xorBytes_zeros]
        simp only [Sha256.maskNalu, List.append_assoc]
      · have hkeep : H.maskPiece key skip (sc, nalu) i = (sc, nalu) := if_neg hm
        rw [if_neg hm, hkeep, ← List.length_append,
          xorBytes_append (by rw [List.length_replicate]), xorBytes_zeros]

end Pieces

/-! ## Streams -/

/-- The first bytes are a start code. -/
def BeginsWithStartCode (data : Bytes) : Prop := slice data 0 4 = START4 ∨ slice data 0 3 = START3

/-- The units of a stream, those that `split_annexb_nalus` would drop included. -/
def units (data : Bytes) : List (Bytes × Bytes) := cut data (findStartCodes data)

/-- Every unit has at least 2 bytes. -/
def UnitsLong (data : Bytes) : Prop := ∀ p ∈ units data, 2 ≤ p.2.length

instance (data : Bytes) : Decidable (UnitsLong data) := inferInstanceAs (Decidable (∀ p ∈ units data, _))

theorem join_eq_joinAnnexbNalus (ps : List (Bytes × Bytes)) : joinAnnexbNalus ps = join ps := rfl

/-- A stream of at most 3 bytes has no start code. -/
theorem findStartCodes_short {data : Bytes} (h : data.length ≤ 3) : findStartCodes data = [] := by
  rw [findStartCodes, findStartCodesFrom, dif_neg (by omega)]

/-- A longer stream that begins with a start code has its first one at the front. -/
theorem findStartCodes_begins {data : Bytes} (hbegin : BeginsWithStartCode data) (hlen : 3 < data.length) :
    findStartCodes data ≠ [] ∧ next data.length (findStartCodes data) = 0 := by
  rw [findStartCodes, findStartCodesFrom, dif_pos (by omega)]
  by_cases h4 : slice data 0 (0 + 4) = START4
  · rw [if_pos h4]
    exact ⟨List.cons_ne_nil _ _, rfl⟩
  · rw [if_neg h4, if_pos (hbegin.resolve_left h4)]
    exact ⟨List.cons_ne_nil _ _, rfl⟩

theorem join_units (data : Bytes) : join (units data) = data.drop (next data.length (findStartCodes data)) :=
  join_cut data (spaced_findStartCodes data)

/-- `split_annexb_nalus` on a stream with a start code. -/
theorem splitAnnexbNalus_eq {data : Bytes} (h : findStartCodes data ≠ []) :
    splitAnnexbNalus data = .ok ((units data).filter fun p => ¬p.2.length < 2) := by
  rw [splitAnnexbNalus, if_neg h]
  rfl

/-- Dropping short units makes the stream shorter. -/
theorem filter_eq_of_length_join {ps : List (Bytes × Bytes)} {f : Bytes × Bytes → Bool} (hne : ∀ p ∈ ps, p.1 ≠ [])
    (h : (join ps).length ≤ (join (ps.filter f)).length) : ps.filter f = ps := by
  have hle : ∀ qs : List (Bytes × Bytes), (join (qs.filter f)).length ≤ (join qs).length := by
    intro qs
    induction qs with
    | nil => exact Nat.le_refl _
    | cons q qs ih =>
      rw [List.filter_cons]
      split <;> simp only [join_cons, List.length_append] at ih ⊢ <;> omega
  induction ps with
  | nil => rfl
  | cons p ps ih =>
    rw [List.filter_cons] at h ⊢
    by_cases hp : f p = true
    · rw [if_pos hp] at h ⊢
      simp only [join_cons, List.length_append] at h
      rw [ih (fun q hq => hne q (List.mem_cons_of_mem _ hq)) (by omega)]
    · rw [if_neg hp] at h
      have hps := hle ps
      have hpos := List.length_pos_iff.mpr (hne p List.mem_cons_self)
      simp only [join_cons, List.length_append] at h
      omega

/-- A start code is not empty. -/
theorem units_fst_ne_nil {data : Bytes} {p : Bytes × Bytes} (hp : p ∈ units data) : p.1 ≠ [] := by
  have hmem : p.1 ∈ (units data).map Prod.fst := List.mem_map_of_mem hp
  rw [units, map_fst_cut] at hmem
  obtain ⟨m, hm, hp⟩ := List.mem_map.mp hmem
  rw [← hp]
  rcases occ_of_mem_findStartCodesFrom hm with ⟨h4, hocc⟩ | ⟨h3, -, hocc⟩
  · rw [h4, hocc]
    exact List.cons_ne_nil _ _
  · rw [h3, hocc]
    exact List.cons_ne_nil _ _

section Stream

variable (H : Sha256) (key : Bytes) (skip : Nat)

/-- A pass over a stream. -/
def Sha256.pass (next : Nat → Bool → Nat) (data : Bytes) : Except PyError Bytes := do
  let nalus ← splitAnnexbNalus data
  let out ← H.passLoop key skip next 0 nalus
  return joinAnnexbNalus out

theorem hevcXorIOnly_eq : H.hevcXorIOnly key skip = H.pass key skip encNext := by
  funext data
  simp only [Sha256.hevcXorIOnly, Sha256.pass, hevcXorIOnlyLoop_eq]

theorem hevcXorIOnlyDec_eq : H.hevcXorIOnlyDec key skip = H.pass key skip decNext := by
  funext data
  simp only [Sha256.hevcXorIOnlyDec, Sha256.pass, hevcXorIOnlyDecLoop_eq]

/-- The indices of the units of a stream. -/
def unitIndices (next : Nat → Bool → Nat) (data : Bytes) : List Nat := indices next skip 0 (units data)

variable {H key skip}

/-- A pass over a stream without short units. -/
theorem pass_eq_ok_iff {next : Nat → Bool → Nat} {data out : Bytes} (hcodes : findStartCodes data ≠ [])
    (hlong : UnitsLong data) :
    H.pass key skip next data = .ok out ↔
      IndicesFit skip (units data) (unitIndices skip next data) ∧
        out = join (List.zipWith (H.maskPiece key skip) (units data) (unitIndices skip next data)) := by
  have hfilter : ((units data).filter fun p => ¬p.2.length < 2) = units data := by
    refine List.filter_eq_self.mpr fun p hp => decide_eq_true ?_
    exact Nat.not_lt.mpr (hlong p hp)
  rw [Sha256.pass, splitAnnexbNalus_eq hcodes, ok_bind, hfilter, bind_eq_ok]
  simp only [passLoop_eq_ok_iff, pure_eq_ok, join_eq_joinAnnexbNalus, unitIndices, Except.ok.injEq]
  constructor
  · rintro ⟨qs, ⟨hfit, rfl⟩, rfl⟩
    exact ⟨hfit, rfl⟩
  · rintro ⟨hfit, rfl⟩
    exact ⟨_, ⟨hfit, rfl⟩, rfl⟩

/-- What leaves a pass holds the start codes of what entered, when it has the same length. -/
theorem slice_eq_of_pass {next : Nat → Bool → Nat} {data out : Bytes} (h : H.pass key skip next data = .ok out)
    (hlen : out.length = data.length) :
    ∀ m ∈ findStartCodes data, slice out m.1 (m.1 + m.2) = slice data m.1 (m.1 + m.2) := by
  intro m hm
  have hcodes : findStartCodes data ≠ [] := List.ne_nil_of_mem hm
  rw [Sha256.pass, splitAnnexbNalus_eq hcodes, ok_bind, bind_eq_ok] at h
  obtain ⟨qs, hqs, hout⟩ := h
  obtain ⟨-, rfl⟩ := (passLoop_eq_ok_iff H key skip next 0 _ qs).mp hqs
  simp only [pure_eq_ok, join_eq_joinAnnexbNalus, Except.ok.injEq] at hout
  have hshape : SameShape ((units data).filter fun p => ¬p.2.length < 2)
      (List.zipWith (H.maskPiece key skip) ((units data).filter fun p => ¬p.2.length < 2)
        (indices next skip 0 ((units data).filter fun p => ¬p.2.length < 2))) :=
    sameShape_maskPieces (length_indices next 0 _)
  have hjoin : (join ((units data).filter fun p => ¬p.2.length < 2)).length = data.length := by
    rw [hshape.length_join, hout, hlen]
  have hunits : (join (units data)).length ≤ data.length := by
    rw [join_units, List.length_drop]
    omega
  -- no unit was dropped, and nothing stood before the first start code
  have hfilter := filter_eq_of_length_join (fun p hp => units_fst_ne_nil hp) (hunits.trans (Nat.le_of_eq hjoin.symm))
  rw [hfilter] at hshape hjoin hout
  have hfirst : Segments.next data.length (findStartCodes data) = 0 := by
    have hpos : ¬data.length ≤ 3 := fun h => hcodes (findStartCodes_short h)
    rw [join_units, List.length_drop] at hjoin
    omega
  exact slice_eq_of_sameShape (spaced_findStartCodes data) hshape hfirst hout.symm hm

/-- With the same start codes, the masked stream is cut into the masked pieces, and a further pass masks those. -/
theorem pass_join_maskPieces_iff {next1 next2 : Nat → Bool → Nat} {data out : Bytes} (hbegin : BeginsWithStartCode data)
    (hlong : UnitsLong data) (hlen : 3 < data.length) {pieces : List (Bytes × Bytes)}
    (hpieces : List.zipWith (H.maskPiece key skip) (units data) (unitIndices skip next1 data) = pieces)
    (hsame : findStartCodes (join pieces) = findStartCodes data) :
    H.pass key skip next2 (join pieces) = .ok out ↔ IndicesFit skip (units data) (unitIndices skip next2 data) ∧
      out = join (List.zipWith (H.maskPiece key skip) pieces (unitIndices skip next2 data)) := by
  obtain ⟨hcodes, hfirst⟩ := findStartCodes_begins hbegin hlen
  have his : (unitIndices skip next1 data).length = (units data).length := length_indices next1 0 _
  have hshape : SameShape (units data) pieces := hpieces ▸ sameShape_maskPieces his
  have hlenmask : (join pieces).length = data.length := by rw [← hshape.length_join, join_units, hfirst, List.drop_zero]
  have hunits : units (join pieces) = pieces := by
    rw [units, hsame]
    exact cut_eq_of_sameShape [] (spaced_findStartCodes data) hfirst.symm hlenmask hshape rfl
  have hlong' : UnitsLong (join pieces) := by
    rw [UnitsLong, hunits]
    exact hshape.forall_length hlong
  have hindices : unitIndices skip next2 (join pieces) = unitIndices skip next2 data := by
    rw [unitIndices, hunits, ← hpieces, indices_maskPieces next2 0 his, unitIndices]
  rw [pass_eq_ok_iff (hsame ▸ hcodes) hlong', hunits, hindices, ← hpieces, indicesFit_maskPieces his]

/-- Two passes with one key give a stream back exactly when the stream is longer than a short start code, the indices of the
masked units fit into 32 bits, the mask of the first pass leaves the start codes alone, and each masked unit has one keystream
under both of its indices. -/
theorem pass_pass_iff {next1 next2 : Nat → Bool → Nat} {data : Bytes} (hskip : 32 ≤ skip)
    (hbegin : BeginsWithStartCode data) (hlong : UnitsLong data) :
    (H.pass key skip next1 data >>= H.pass key skip next2) = .ok data ↔
      3 < data.length ∧ IndicesFit skip (units data) (unitIndices skip next1 data) ∧
        IndicesFit skip (units data) (unitIndices skip next2 data) ∧
        findStartCodes (xorBytes data (H.keystreamMask key skip (units data) (unitIndices skip next1 data))) =
          findStartCodes data ∧
        H.SameKeystreams key skip (units data) (unitIndices skip next1 data) (unitIndices skip next2 data) := by
  by_cases hlen : 3 < data.length
  · obtain ⟨hcodes, hfirst⟩ := findStartCodes_begins hbegin hlen
    have his : (unitIndices skip next1 data).length = (units data).length := length_indices next1 0 _
    have hjs : (unitIndices skip next2 data).length = (units data).length := length_indices next2 0 _
    have hjoin : join (units data) = data := by rw [join_units, hfirst, List.drop_zero]
    generalize hpieces : List.zipWith (H.maskPiece key skip) (units data) (unitIndices skip next1 data) = pieces
    have hshape : SameShape (units data) pieces := hpieces ▸ sameShape_maskPieces his
    have hmask : xorBytes data (H.keystreamMask key skip (units data) (unitIndices skip next1 data)) = join pieces := by
      rw [← hpieces, join_maskPieces his, hjoin]
    have hlenmask : (join pieces).length = data.length := by rw [← hshape.length_join, hjoin]
    rw [bind_eq_ok, hmask, ← maskPieces_maskPieces_iff hskip his hjs, hpieces]
    constructor
    · rintro ⟨masked, hfirstPass, hsecondPass⟩
      obtain ⟨hfit, rfl⟩ := (pass_eq_ok_iff hcodes hlong).mp hfirstPass
      rw [hpieces] at hfirstPass hsecondPass
      have hsame : findStartCodes (join pieces) = findStartCodes data :=
        findStartCodes_eq hlenmask (slice_eq_of_pass hsecondPass hlenmask.symm) (slice_eq_of_pass hfirstPass hlenmask)
      obtain ⟨hfit2, hout⟩ := (pass_join_maskPieces_iff hbegin hlong hlen hpieces hsame).mp hsecondPass
      refine ⟨hlen, hfit, hfit2, hsame, ?_⟩
      have hshape2 : SameShape pieces (List.zipWith (H.maskPiece key skip) pieces (unitIndices skip next2 data)) :=
        sameShape_maskPieces (hjs.trans hshape.length_eq)
      exact (hshape.trans hshape2).symm.eq_of_join_eq (hout.symm.trans hjoin.symm)
    · rintro ⟨-, hfit, hfit2, hsame, hpiecesBack⟩
      refine ⟨join pieces, (pass_eq_ok_iff hcodes hlong).mpr ⟨hfit, by rw [hpieces]⟩, ?_⟩
      exact (pass_join_maskPieces_iff hbegin hlong hlen hpieces hsame).mpr ⟨hfit2, by rw [hpiecesBack, hjoin]⟩
  · constructor
    · intro h
      obtain ⟨masked, hfirstPass, -⟩ := bind_eq_ok.mp h
      rw [Sha256.pass, splitAnnexbNalus, findStartCodes_short (by omega), if_pos rfl] at hfirstPass
      cases hfirstPass
    · rintro ⟨h, -⟩
      exact absurd h hlen

end Stream

end AuthVideo
