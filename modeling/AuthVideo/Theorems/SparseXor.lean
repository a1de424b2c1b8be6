import AuthVideo.Lemmas.Sparse
import AuthVideo.Lib.BigEndian

/-!
# Theorem 50: the sparse encryption of a frame

The start codes are looked for in a copy of the packet, and the file is written at the places that they say. A unit goes from behind its
start code to the next one. What stands in the last three bytes of a packet is no start code for the scanner, as no header is behind it.
-/

namespace AuthVideo

namespace Test1

open Segments

/-- The packet in the file. -/
def packet (mm : Bytes) (pktPos pktSize : Nat) : Bytes := slice mm pktPos (pktPos + pktSize)

/-- A place of the file is the position of a slice: every so many bytes from behind the first bytes of the payload on. -/
def IsPosition (pktPos : Nat) (seg : Bytes) (step i : Nat) : Prop :=
  ∃ u ∈ nalUnits seg, isVclUnit seg u ∧ ∃ k, i = pktPos + (payloadStart u + step * k) ∧ payloadStart u + step * k < u.2

/-- The file `mm'` is `mm` with the slices of a packet encrypted, every so many bytes, with the keystream of a cipher. -/
structure SparselyMasked (z : PyZuc.State) (step : Nat) (mm mm' : Bytes) (pktPos pktSize encrypted : Nat) : Prop where
  /-- The file keeps its length. -/
  length : mm'.length = mm.length
  /-- Nothing outside the packet changes. -/
  outside : ∀ i, i < pktPos ∨ pktPos + pktSize ≤ i → mm'[i]? = mm[i]?
  /-- No start code does. -/
  startCode : ∀ p, Occ3 (packet mm pktPos pktSize) p → ∀ i, p ≤ i → i < p + 3 → mm'[pktPos + i]? = mm[pktPos + i]?
  longStartCode : ∀ p, Occ4 (packet mm pktPos pktSize) p → p + 4 < (packet mm pktPos pktSize).length →
    ∀ i, p ≤ i → i < p + 4 → mm'[pktPos + i]? = mm[pktPos + i]?
  /-- No header does, and none of the first bytes of a payload. -/
  header : ∀ u ∈ nalUnits (packet mm pktPos pktSize), ∀ i, u.1 ≤ i → i < u.1 + 2 → mm'[pktPos + i]? = mm[pktPos + i]?
  skipped : ∀ u ∈ nalUnits (packet mm pktPos pktSize), ∀ i, u.1 + 2 ≤ i → i < u.1 + 2 + skipPrefixBytes →
    mm'[pktPos + i]? = mm[pktPos + i]?
  /-- Nothing does in a unit of another type. -/
  other : ∀ u ∈ nalUnits (packet mm pktPos pktSize), ∀ b0, (packet mm pktPos pktSize)[u.1]? = some b0 → 31 < hevcNalUnitType b0 →
    ∀ i, u.1 ≤ i → i < u.2 → mm'[pktPos + i]? = mm[pktPos + i]?
  /-- In a slice each position is masked with its byte of the keystream, which goes on behind the units in front. -/
  masked : ∀ before u after, nalUnits (packet mm pktPos pktSize) = before ++ u :: after →
    ∀ b0, (packet mm pktPos pktSize)[u.1]? = some b0 → hevcNalUnitType b0 ≤ 31 → ∀ k, payloadStart u + step * k < u.2 →
      ∃ b c, mm[pktPos + (payloadStart u + step * k)]? = some b ∧
        (Test1Zuc.keystreamBytes (cipherAfter (packet mm pktPos pktSize) step before z)
          (nalCount (packet mm pktPos pktSize) step u)).1[k]? = some c ∧
        mm'[pktPos + (payloadStart u + step * k)]? = some (b ^^^ c)
  /-- Nothing else changes. -/
  only : ∀ i, mm'[i]? ≠ mm[i]? → IsPosition pktPos (packet mm pktPos pktSize) step i
  /-- The positions are counted. -/
  counted : ∃ positions : List Nat, positions.Nodup ∧ encrypted = positions.length ∧
    ∀ i, i ∈ positions ↔ IsPosition pktPos (packet mm pktPos pktSize) step i

section Sparse

variable {z : PyZuc.State} {step : Nat} {mm : Bytes} {pktPos pktSize : Nat}

/-- The type of a unit whose header is there. -/
theorem isVclUnit_iff {seg : Bytes} {u : Nat × Nat} {b0 : UInt8} (h : seg[u.1]? = some b0) :
    isVclUnit seg u ↔ hevcNalUnitType b0 ≤ 31 := by
  rw [isVclUnit, h, Option.any_some, isVclNal, decide_eq_true_eq]

theorem length_packet (mm : Bytes) (pktPos pktSize : Nat) :
    (packet mm pktPos pktSize).length = min pktSize (mm.length - pktPos) := by
  rw [packet, slice, List.length_take, List.length_drop, Nat.add_sub_cancel_left]

/-- What is patched are the positions of the slices. -/
theorem mem_places_iff (hstep : 0 < step) {seg : Bytes} {i : Nat} :
    i ∈ (masks pktPos seg step (nalUnits seg) z).map Prod.fst ↔ IsPosition pktPos seg step i := by
  rw [map_fst_masks, List.mem_flatMap]
  simp only [mem_nalPositions hstep, IsPosition]

theorem nodup_places (hstep : 0 < step) (seg : Bytes) : ((masks pktPos seg step (nalUnits seg) z).map Prod.fst).Nodup := by
  rw [map_fst_masks]
  exact nodup_positions hstep (spaced_codes seg).pairwise_spans

/-- A place of the packet changes only if it lies in a slice, behind the first bytes of the payload. -/
theorem unchanged_of_bounds (hstep : 0 < step) {seg : Bytes} {i : Nat}
    (h : ∀ u ∈ nalUnits seg, isVclUnit seg u → payloadStart u ≤ i → i < u.2 → False) :
    (Patch.apply (· ^^^ ·) mm (masks pktPos seg step (nalUnits seg) z))[pktPos + i]? = mm[pktPos + i]? := by
  refine Patch.getElem?_apply_of_not_mem fun hmem => ?_
  obtain ⟨u, hu, hvcl, k, hk, hend⟩ := (mem_places_iff hstep).mp hmem
  obtain rfl : i = payloadStart u + step * k := Nat.add_left_cancel hk
  exact h u hu hvcl (Nat.le_add_right _ _) hend

/-- No byte of a start code that the scanner finds changes. -/
theorem unchanged_of_code (hstep : 0 < step) {seg : Bytes} {m : Nat × Nat} (hm : m ∈ findStartCodes seg) {i : Nat} (hi : m.1 ≤ i)
    (hend : i < m.1 + m.2) :
    (Patch.apply (· ^^^ ·) mm (masks pktPos seg step (nalUnits seg) z))[pktPos + i]? = mm[pktPos + i]? := by
  refine unchanged_of_bounds hstep ?_
  intro u hu _ hstart hstop
  have hheader := le_payloadStart u
  rcases (spaced_codes seg).apart hm hu with hbefore | hbehind
  · omega
  · omega

/-- No byte from a header to the first position changes. -/
theorem unchanged_of_front (hstep : 0 < step) {seg : Bytes} {u : Nat × Nat} (hu : u ∈ nalUnits seg) {i : Nat} (hi : u.1 ≤ i)
    (hend : i < payloadStart u) :
    (Patch.apply (· ^^^ ·) mm (masks pktPos seg step (nalUnits seg) z))[pktPos + i]? = mm[pktPos + i]? := by
  refine unchanged_of_bounds hstep ?_
  intro v hv _ hstart hstop
  have hle := ((spaced_codes seg).span hu).2.1
  rcases (spaced_codes seg).eq_or_apart hu hv with rfl | hbefore | hbehind
  · omega
  · simp only [payloadStart] at hend hstart
    omega
  · omega

/-- The file with the keystream laid over the slices of a packet is sparsely masked. -/
theorem sparselyMasked_apply (hstep : 0 < step) (z : PyZuc.State) (mm : Bytes) (pktPos pktSize : Nat) :
    SparselyMasked z step mm
      (Patch.apply (· ^^^ ·) mm (masks pktPos (packet mm pktPos pktSize) step (nalUnits (packet mm pktPos pktSize)) z)) pktPos pktSize
      (masks pktPos (packet mm pktPos pktSize) step (nalUnits (packet mm pktPos pktSize)) z).length where
  length := Patch.length_apply ..
  outside := by
    intro i hi
    refine Patch.getElem?_apply_of_not_mem fun hmem => ?_
    obtain ⟨u, hu, -, k, rfl, hend⟩ := (mem_places_iff hstep).mp hmem
    have hstop := ((spaced_codes _).span hu).2.2
    have hlen := length_packet mm pktPos pktSize
    omega
  startCode := by
    intro p hocc i hi hend
    rcases mem_codes_three hocc with hmem | ⟨q, rfl, hmem⟩
    · exact unchanged_of_code hstep hmem hi hend
    · exact unchanged_of_code hstep hmem (Nat.le_of_succ_le hi) (by simpa [Nat.add_assoc] using hend)
  longStartCode := by
    intro p hocc hfollowed i hi hend
    exact unchanged_of_code hstep (mem_codes_four hocc hfollowed) hi hend
  header := by
    intro u hu i hi hend
    exact unchanged_of_front hstep hu hi (Nat.lt_of_lt_of_le hend (Nat.le_add_right _ _))
  skipped := by
    intro u hu i hi hend
    exact unchanged_of_front hstep hu (Nat.le_trans (Nat.le_add_right _ _) hi) hend
  other := by
    intro u hu b0 hb0 htype i hi hend
    refine unchanged_of_bounds hstep ?_
    intro v hv hvcl hstart hstop
    have hheader := le_payloadStart v
    rcases (spaced_codes _).eq_or_apart hu hv with rfl | hbefore | hbehind
    · exact Nat.not_le_of_lt htype ((isVclUnit_iff hb0).mp hvcl)
    · omega
    · omega
  masked := by
    intro before u after hunits b0 hb0 htype k hk
    have hu : u ∈ nalUnits (packet mm pktPos pktSize) := by
      rw [hunits]
      exact List.mem_append_right _ List.mem_cons_self
    have hcount := (lt_nalCount_iff hstep).mpr ⟨(isVclUnit_iff hb0).mpr htype, hk⟩
    obtain ⟨c, hc, hmem⟩ := mem_masks pktPos before after z hcount
    have hstop := ((spaced_codes _).span hu).2.2
    have hlen := length_packet mm pktPos pktSize
    have hin : pktPos + (payloadStart u + step * k) < mm.length := by omega
    refine ⟨_, c, List.getElem?_eq_getElem hin, hc, ?_⟩
    rw [← hunits] at hmem
    rw [Patch.getElem?_apply_of_mem (nodup_places hstep _) hmem, List.getElem?_eq_getElem hin, Option.map_some]
  only := by
    intro i hi
    by_contra hnot
    exact hi (Patch.getElem?_apply_of_not_mem fun hmem => hnot ((mem_places_iff hstep).mp hmem))
  counted := ⟨_, nodup_places hstep _, (List.length_map ..).symm, fun i => mem_places_iff hstep⟩

/-- The key of the script and its IV are taken. -/
theorem zuc_ok (H : Sha256) (cfgName : String) (frameIdx : Nat) :
    (Test1Zuc.ZUC256 zucKey (deriveIv16 H cfgName frameIdx)).toOption =
      some (Test1Zuc.initState zucKey (deriveIv16 H cfgName frameIdx)) := by
  have hkey : zucKey.length = 32 := List.length_replicate
  have hiv : (deriveIv16 H cfgName frameIdx).length = 16 := by
    rw [deriveIv16, List.length_take, H.length_digest]
    decide
  rw [Test1Zuc.ZUC256, if_neg (not_not.mpr hkey), if_neg fun h => h.1 hiv]
  rfl

/-- Theorem 50 (sparse encryption). For every file, every interval of it as a packet, every strength for which the script computes a
step, and every hash that the IV is taken from, `encrypt_frame_packet_inplace` returns. It leaves everything outside the packet, the
start codes, the headers, the first bytes of each payload and the units of other types, masks exactly the positions of each slice, every
step from behind the first bytes, with the keystream that it takes for this slice, and returns their number. -/
theorem sparse_encryption {R : Type} (F : Floats R) (H : Sha256) (mm : Bytes) (pktPos pktSize : Nat) (pictType cfgName : String)
    (cfg : List (String × R)) (frameIdx : Nat) {rounded : Int} (hrho : F.nonpos (F.rhoForType cfg pictType) = false)
    (hround : F.roundInverse (F.rhoForType cfg pictType) = some rounded) :
    ∃ (step : Nat) (mm' : Bytes) (encrypted : Nat), step = max 2 rounded ∧
      encryptFramePacketInplace F H mm pktPos pktSize pictType cfgName cfg frameIdx = some (mm', encrypted) ∧
      SparselyMasked (Test1Zuc.initState zucKey (deriveIv16 H cfgName frameIdx)) step mm mm' pktPos pktSize encrypted := by
  have htwo : (2 : Int) ≤ max 2 rounded := Int.le_max_left 2 rounded
  have hstep : 0 < (max 2 rounded).toNat := by omega
  have hmasked := sparselyMasked_apply hstep (Test1Zuc.initState zucKey (deriveIv16 H cfgName frameIdx)) mm pktPos pktSize
  refine ⟨(max 2 rounded).toNat, _, _, Int.toNat_of_nonneg (by omega), ?_, hmasked⟩
  rw [encryptFramePacketInplace, hrho, hround, ← packet]
  simp only [Bool.false_eq_true, if_false, Option.bind_eq_bind, Option.bind_some]
  split
  · rename_i hcodes
    rw [nalUnits, hcodes]
    rfl
  · rename_i hcodes
    obtain ⟨m, hm⟩ := List.exists_mem_of_ne_nil _ hcodes
    have hfollowed := followed_of_mem hm
    have hlen := length_packet mm pktPos pktSize
    rw [zuc_ok, Option.bind_some, encryptNals_eq hstep (spaced_codes _) (fun m hm => followed_of_mem hm) (by simp only; omega),
      Option.bind_some, Nat.zero_add]
    rfl

end Sparse

/-- Exact arithmetic for floats: a half goes to the even neighbour. -/
def exactFloats : Floats ℚ where
  zero := 0
  nonpos rho := rho ≤ 0
  roundInverse rho :=
    let q := 1 / rho
    let rest := q - q.floor
    if rho = 0 then none else some (if 1 / 2 < rest ∨ (rest = 1 / 2 ∧ q.floor % 2 = 1) then q.floor + 1 else q.floor)

/-- `CONFIGS["A_I-only"]`. -/
def configA : List (String × ℚ) := [("rho_I", 1 / 10), ("rho_P", 0), ("rho_B", 0)]

/-- The digest of the first frame under that name, and zero elsewhere. -/
def firstFrameSha256 : Sha256 where
  digest m := BigEndian.encode 32 <|
    if m = "A_I-only|0".toUTF8.toList then 0x720db3aa1a08c0777a34d9e01e8c5259efeb995c16743d78675561cfd42381ca else 0
  length_digest _ := BigEndian.length_encode 32 _

/-- A packet of one IDR unit with a payload of 80 bytes. -/
def sampleFrame : Bytes := START4 ++ [0x26, 0x01] ++ List.replicate 80 0x80

/-- An I-frame is masked at every tenth byte. -/
theorem sparse_encryption_frame :
    ∃ (step : Nat) (mm' : Bytes) (encrypted : Nat), step = max 2 (10 : Int) ∧
      encryptFramePacketInplace exactFloats firstFrameSha256 sampleFrame 0 86 "I" "A_I-only" configA 0 = some (mm', encrypted) ∧
      SparselyMasked (Test1Zuc.initState zucKey (deriveIv16 firstFrameSha256 "A_I-only" 0)) step sampleFrame mm' 0 86 encrypted :=
  sparse_encryption exactFloats firstFrameSha256 sampleFrame 0 86 "I" "A_I-only" configA 0 (by decide +kernel) (by decide +kernel)

/-- A packet of 67 bytes that ends with a start code, whose unit begins behind the packet. -/
def sampleTrailing : Bytes := START4 ++ [0x26, 0x01] ++ List.replicate 58 0x80 ++ START3 ++ [0x26, 0x01]

/-- The start code at the end of that packet is a position of the slice in front of it, and is masked. -/
theorem trailing_start_code_masked :
    ¬∀ (mm mm' : Bytes) (pktPos pktSize encrypted : Nat),
      encryptFramePacketInplace exactFloats firstFrameSha256 mm pktPos pktSize "I" "A_I-only" configA 0 = some (mm', encrypted) →
      ∀ p, pktPos ≤ p → p + 3 ≤ pktPos + pktSize → slice mm p (p + 3) = START3 → slice mm' p (p + 3) = START3 := by
  intro hall
  have hcall : (encryptFramePacketInplace exactFloats firstFrameSha256 sampleTrailing 0 67 "I" "A_I-only" configA 0).map
      (fun result => slice result.1 64 67) = some [0xc5, 0x00, 0x01] := by decide +kernel
  obtain ⟨⟨mm', encrypted⟩, hrun, hbytes⟩ := Option.map_eq_some_iff.mp hcall
  have hkept := hall sampleTrailing mm' 0 67 encrypted hrun 64 (by decide) (by decide) (by decide)
  exact absurd (hbytes.symm.trans hkept) (by decide)

end Test1

end AuthVideo
