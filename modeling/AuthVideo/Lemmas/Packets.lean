import AuthVideo.Packets
import AuthVideo.Lemmas.Passes

/-!
# Two passes over the units of a packet

A pass that keeps the start codes and the lengths of the units is undone by a second one exactly when the second one finds the units
where the first one found them, and undoes them there.
-/

namespace AuthVideo

open Segments

/-! ## The units of a packet -/

/-- The units make up a packet that begins with a start code. -/
theorem join_splitAnnexbNals {data : Bytes} (hbegin : BeginsWithStartCode data) : join (splitAnnexbNals data) = data := by
  rw [splitAnnexbNals]
  by_cases hlen : 3 < data.length
  · obtain ⟨hcodes, hfirst⟩ := findStartCodes_begins hbegin hlen
    rw [if_neg hcodes, join_cut data (spaced_findStartCodes data), hfirst, List.drop_zero]
  · rw [if_pos (findStartCodes_short (Nat.not_lt.mp hlen)), join_cons, join_nil, List.nil_append, List.append_nil]

/-- Where the pass gives as many bytes as it got, the start codes keep their content. -/
theorem slice_eq_of_split {data : Bytes} {qs : List (Bytes × Bytes)} (hshape : SameShape (splitAnnexbNals data) qs)
    (hlen : (join qs).length = data.length) :
    ∀ m ∈ findStartCodes data, slice (join qs) m.1 (m.1 + m.2) = slice data m.1 (m.1 + m.2) := by
  intro m hm
  have hcodes : findStartCodes data ≠ [] := List.ne_nil_of_mem hm
  rw [splitAnnexbNals, if_neg hcodes] at hshape
  -- a first start code further on would make the string shorter
  have hfirst : next data.length (findStartCodes data) = 0 := by
    have hlong : ¬data.length ≤ 3 := fun h => hcodes (findStartCodes_short h)
    rw [← hshape.length_join, join_cut data (spaced_findStartCodes data), List.length_drop] at hlen
    omega
  exact slice_eq_of_sameShape (spaced_findStartCodes data) hshape hfirst rfl hm

/-- With the same start codes a packet is cut into the units that it was put together from. -/
theorem splitAnnexbNals_join {data : Bytes} (hbegin : BeginsWithStartCode data) {qs : List (Bytes × Bytes)}
    (hshape : SameShape (splitAnnexbNals data) qs) (hcodes : findStartCodes (join qs) = findStartCodes data) :
    splitAnnexbNals (join qs) = qs := by
  have hlen : (join qs).length = data.length := by rw [← hshape.length_join, join_splitAnnexbNals hbegin]
  rw [splitAnnexbNals] at hshape ⊢
  rw [hcodes]
  by_cases hnone : findStartCodes data = []
  · rw [if_pos hnone] at hshape ⊢
    cases hshape with
    | @cons _ q _ qs hq hqs =>
      cases hqs
      rw [join_cons, join_nil, List.append_nil, ← hq.1, List.nil_append]
      exact congrArg (fun sc => [(sc, q.2)]) hq.1
  · have hlong : 3 < data.length := by
      by_contra h
      exact hnone (findStartCodes_short (Nat.not_lt.mp h))
    rw [if_neg hnone] at hshape ⊢
    exact cut_eq_of_sameShape [] (spaced_findStartCodes data) (findStartCodes_begins hbegin hlong).2.symm hlen hshape rfl

/-- Two passes give a packet back exactly when the first leaves the start codes where they were and the second undoes it on the
units. -/
theorem pass_pass_eq_iff {f g : List (Bytes × Bytes) → List (Bytes × Bytes)} (hf : ∀ ps, SameShape ps (f ps))
    (hg : ∀ ps, SameShape ps (g ps)) {data : Bytes} (hbegin : BeginsWithStartCode data) :
    join (g (splitAnnexbNals (join (f (splitAnnexbNals data))))) = data ↔
      findStartCodes (join (f (splitAnnexbNals data))) = findStartCodes data ∧
        g (f (splitAnnexbNals data)) = splitAnnexbNals data := by
  have hjoin := join_splitAnnexbNals hbegin
  have hshape := hf (splitAnnexbNals data)
  have hlen : (join (f (splitAnnexbNals data))).length = data.length := by rw [← hshape.length_join, hjoin]
  constructor
  · intro h
    have hshape' := hg (splitAnnexbNals (join (f (splitAnnexbNals data))))
    have hback : ∀ m ∈ findStartCodes (join (f (splitAnnexbNals data))),
        slice data m.1 (m.1 + m.2) = slice (join (f (splitAnnexbNals data))) m.1 (m.1 + m.2) := by
      have hslices := slice_eq_of_split hshape' (by rw [h, hlen])
      rwa [h] at hslices
    have hcodes : findStartCodes (join (f (splitAnnexbNals data))) = findStartCodes data :=
      findStartCodes_eq hlen hback (slice_eq_of_split hshape hlen)
    rw [splitAnnexbNals_join hbegin hshape hcodes] at h
    have hboth : SameShape (splitAnnexbNals data) (g (f (splitAnnexbNals data))) := hshape.trans (hg _)
    exact ⟨hcodes, (hboth.eq_of_join_eq (hjoin.trans h.symm)).symm⟩
  · rintro ⟨hcodes, hunits⟩
    rw [splitAnnexbNals_join hbegin hshape hcodes, hunits, hjoin]

/-! ## The cipher of a packet -/

/-- A unit that is encrypted. -/
def Ciphered (nal : Bytes) : Prop := 3 ≤ nal.length ∧ shouldEncryptNal (hevcNalType nal)

instance (nal : Bytes) : Decidable (Ciphered nal) := inferInstanceAs (Decidable (_ ∧ _))

/-- A unit with a keystream laid over its payload. -/
def maskPayload (nal ks : Bytes) : Bytes := nal.take 2 ++ xorBytes (nal.drop 2) ks

/-- The units after a pass with a cipher. -/
def maskNals : List (Bytes × Bytes) → PyZuc.State → List (Bytes × Bytes)
  | [], _ => []
  | p :: ps, z =>
    if Ciphered p.2 then
      (p.1, maskPayload p.2 (TimeZuc.keystream z (p.2.length - 2)).1) :: maskNals ps (TimeZuc.keystream z (p.2.length - 2)).2
    else p :: maskNals ps z

/-- The bytes that a pass lays over a packet: nothing over the start codes, the headers and the units that are kept. -/
def packetMask : List (Bytes × Bytes) → PyZuc.State → Bytes
  | [], _ => []
  | p :: ps, z =>
    if Ciphered p.2 then
      List.replicate (p.1.length + 2) 0 ++ (TimeZuc.keystream z (p.2.length - 2)).1 ++
        packetMask ps (TimeZuc.keystream z (p.2.length - 2)).2
    else List.replicate (p.1.length + p.2.length) 0 ++ packetMask ps z

theorem TimeZuc.length_keystreamWords (words : Nat) (z : PyZuc.State) : (keystreamWords words z).1.length = 4 * words := by
  induction words generalizing z with
  | zero => rfl
  | succ words ih =>
    have hturn : (keystreamWords (words + 1) z).1 =
        PyZuc.toBytes4 (round false z).1 ++ (keystreamWords words (round false z).2).1 := rfl
    have hword : (PyZuc.toBytes4 (round false z).1).length = 4 := rfl
    rw [hturn, List.length_append, ih, hword]
    omega

@[simp] theorem TimeZuc.length_keystream (z : PyZuc.State) (n : Nat) : (keystream z n).1.length = n := by
  have hcut : (keystream z n).1 = (keystreamWords ((n + 3) / 4) z).1.take n := rfl
  rw [hcut, List.length_take, length_keystreamWords]
  omega

/-- The loop writes the masked units. -/
theorem encryptNals_fst (ps : List (Bytes × Bytes)) (z : PyZuc.State) : (encryptNals ps z).1 = join (maskNals ps z) := by
  induction ps generalizing z with
  | nil => rfl
  | cons p ps ih =>
    obtain ⟨sc, nal⟩ := p
    rw [encryptNals, maskNals]
    by_cases hshort : nal.length < 3
    · rw [if_pos hshort, if_neg fun h => absurd h.1 (Nat.not_le.mpr hshort), join_cons, ← ih]
    · by_cases htype : shouldEncryptNal (hevcNalType nal)
      · rw [if_neg hshort, if_pos htype, if_pos ⟨Nat.not_lt.mp hshort, htype⟩, join_cons, ← ih, maskPayload, ← List.length_drop]
      · rw [if_neg hshort, if_neg htype, if_neg fun h => htype h.2, join_cons, ← ih]

theorem length_maskPayload {nal ks : Bytes} (hks : ks.length = nal.length - 2) (hlong : 2 ≤ nal.length) :
    (maskPayload nal ks).length = nal.length := by
  rw [maskPayload, List.length_append, List.length_take, length_xorBytes, List.length_drop, hks]
  omega

/-- A masked unit has the header of the unit. -/
theorem ciphered_maskPayload {nal ks : Bytes} (hks : ks.length = nal.length - 2) (h : Ciphered nal) :
    Ciphered (maskPayload nal ks) := by
  have hlong : 2 ≤ nal.length := Nat.le_of_succ_le h.1
  have hlen := length_maskPayload hks hlong
  have hhead : (maskPayload nal ks).headD 0 = nal.headD 0 := by
    obtain ⟨a, b, rest, rfl⟩ : ∃ a b rest, nal = a :: b :: rest := by
      match nal, hlong with
      | a :: b :: rest, _ => exact ⟨a, b, rest, rfl⟩
    rfl
  refine ⟨hlen ▸ h.1, ?_⟩
  rw [hevcNalType, hlen, hhead, ← hevcNalType]
  exact h.2

/-- Laying the same keystream over a unit twice gives it back. -/
theorem maskPayload_maskPayload {nal ks : Bytes} (hks : ks.length = nal.length - 2) (hlong : 2 ≤ nal.length) :
    maskPayload (maskPayload nal ks) ks = nal := by
  have hhead : (nal.take 2).length = 2 := List.length_take_of_le hlong
  have hks' : ks.length = (nal.drop 2).length := by rw [List.length_drop, hks]
  rw [maskPayload, maskPayload, List.take_left' hhead, List.drop_left' hhead, (xorBytes_xorBytes_iff hks' hks').mpr rfl,
    List.take_append_drop]

/-- A pass keeps the start codes and the lengths. -/
theorem sameShape_maskNals (z : PyZuc.State) (ps : List (Bytes × Bytes)) : SameShape ps (maskNals ps z) := by
  induction ps generalizing z with
  | nil => exact .nil
  | cons p ps ih =>
    rw [maskNals]
    split
    · rename_i h
      exact .cons ⟨rfl, (length_maskPayload (TimeZuc.length_keystream z _) (Nat.le_of_succ_le h.1)).symm⟩ (ih _)
    · exact .cons ⟨rfl, rfl⟩ (ih _)

/-- A second pass with the cipher undoes the first on the units: it asks for the same bytes of the keystream. -/
theorem maskNals_maskNals (z : PyZuc.State) (ps : List (Bytes × Bytes)) : maskNals (maskNals ps z) z = ps := by
  induction ps generalizing z with
  | nil => rfl
  | cons p ps ih =>
    by_cases h : Ciphered p.2
    · have hks := TimeZuc.length_keystream z (p.2.length - 2)
      have hlong : 2 ≤ p.2.length := Nat.le_of_succ_le h.1
      rw [maskNals, if_pos h, maskNals, if_pos (ciphered_maskPayload hks h), length_maskPayload hks hlong,
        maskPayload_maskPayload hks hlong, ih]
    · rw [maskNals, if_neg h, maskNals, if_neg h, ih]

/-- A pass lays its mask over the packet. -/
theorem join_maskNals (z : PyZuc.State) (ps : List (Bytes × Bytes)) :
    join (maskNals ps z) = xorBytes (join ps) (packetMask ps z) := by
  induction ps generalizing z with
  | nil => rfl
  | cons p ps ih =>
    obtain ⟨sc, nal⟩ := p
    by_cases h : Ciphered nal
    · have hhead : (sc ++ nal.take 2).length = sc.length + 2 := by
        rw [List.length_append, List.length_take_of_le (Nat.le_of_succ_le h.1)]
      have hpayload : (nal.drop 2).length = (TimeZuc.keystream z (nal.length - 2)).1.length := by
        rw [List.length_drop, TimeZuc.length_keystream]
      have hparts : sc ++ nal = sc ++ nal.take 2 ++ nal.drop 2 := by rw [List.append_assoc, List.take_append_drop]
      have hall : (sc ++ nal.take 2 ++ nal.drop 2).length =
          (List.replicate (sc ++ nal.take 2).length (0 : UInt8) ++ (TimeZuc.keystream z (nal.length - 2)).1).length := by
        simp only [List.length_append, List.length_replicate, hpayload]
      rw [maskNals, if_pos h, packetMask, if_pos h, join_cons, join_cons, ih, hparts, ← hhead, xorBytes_append hall,
        xorBytes_append (by rw [List.length_replicate]), xorBytes_zeros]
      simp only [maskPayload, List.append_assoc]
    · rw [maskNals, if_neg h, packetMask, if_neg h, join_cons, join_cons, ih, ← List.length_append,
        xorBytes_append (by rw [List.length_replicate]), xorBytes_zeros]

end AuthVideo
