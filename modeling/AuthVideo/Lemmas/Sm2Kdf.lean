import AuthVideo.Lemmas.Sm2Texts

/-!
# The key derivation of the SM2 comparison

A derived key is a text of bits of the length asked for. It depends on the number and the length of `Z` only, and its first four bits
are the first digit of the first hash.
-/

namespace AuthVideo

namespace Sm2

variable {H : Sm3} {Z Z' : Text} {l z : ℕ}

/-- A list of results is the result of the list. -/
theorem mapM_eq_ok {α β : Type} {f : α → Except Error β} {g : α → β} {xs : List α} (h : ∀ x ∈ xs, f x = .ok (g x)) :
    xs.mapM f = .ok (xs.map g) := by
  induction xs with
  | nil => rfl
  | cons x xs ih =>
    rw [List.forall_mem_cons] at h
    rw [List.mapM_cons, h.1, ih h.2]
    rfl

/-- The first digits of a text, off its number. -/
theorem Writes.value_take {base len len' n : ℕ} [hb : Base base] {s : Text} (h : Writes base s (len + len') n) :
    numeralValue base (s.take len) = n / base ^ len' := by
  obtain ⟨m, r, hm, hr, rfl⟩ := h.split
  rw [hm.value, mul_comm, Nat.mul_add_div (Nat.pow_pos (Nat.zero_lt_of_lt hb.one_lt)), Nat.div_eq_of_lt hr.lt, add_zero]

/-- The first part of a text. -/
theorem Writes.take {base len n : ℕ} {s : Text} (h : Writes base s len n) {k : ℕ} (hk : k ≤ len) :
    Writes base (s.take k) k (numeralValue base (s.take k)) := by
  rw [← Nat.add_sub_cancel' hk] at h
  obtain ⟨m, r, hm, -, -⟩ := h.split
  exact ⟨hm.isNumeral, hm.length, rfl⟩

/-- The counter as bits. -/
theorem writes_counter (ct : ℕ) : ∃ w, Writes 2 (rjust 32 (intToBits ct)) w ct := by
  have hbits := writes_toDigits 2 ct
  have hwidth : (Nat.toDigits 2 ct).length ≤ ((Nat.toDigits 2 ct).length + 7) / 8 * 8 := by omega
  have hpadded := hbits.rjust hwidth
  rcases Nat.le_total (((Nat.toDigits 2 ct).length + 7) / 8 * 8) 32 with hle | hge
  · exact ⟨32, hpadded.rjust hle⟩
  · have hsame : rjust 32 (intToBits ct) = rjust (((Nat.toDigits 2 ct).length + 7) / 8 * 8) (Nat.toDigits 2 ct) := by
      change List.replicate (32 - (rjust _ (Nat.toDigits 2 ct)).length) '0' ++ rjust _ (Nat.toDigits 2 ct) = _
      rw [hpadded.length, Nat.sub_eq_zero_of_le hge, List.replicate_zero, List.nil_append]
    exact ⟨_, hsame ▸ hpadded⟩

/-- The first counter is 32 bits long. -/
theorem writes_counter_one : Writes 2 (rjust 32 (intToBits 1)) 32 1 := by
  have hone := writes_toDigits 2 1
  have hlen : (Nat.toDigits 2 1).length = 1 := rfl
  rw [hlen] at hone
  have hbits : Writes 2 (intToBits 1) 8 1 := hone.rjust (by decide)
  exact hbits.rjust (by decide)

/-- A block of a key is a text of 256 bits. -/
theorem kdfBlock_eq (hZ : Writes 2 Z l z) (ct : ℕ) : ∃ bits, H.kdfBlock Z ct = .ok bits ∧ ∃ v, Writes 2 bits 256 v := by
  obtain ⟨w, hw⟩ := writes_counter ct
  rw [Sm3.kdfBlock, bitsToBytes_eq (hZ.append hw), ok_bind]
  generalize BigEndian.encode _ _ = m
  obtain ⟨bits, hbits, hwrites⟩ := hexToBits_eq ⟨H.isNumeral_hash m, H.length_hash m, rfl⟩
  exact ⟨bits, hbits, _, hwrites⟩

/-- A block depends on the number and the length of `Z` only. -/
theorem kdfBlock_congr (hZ : Writes 2 Z l z) (hZ' : Writes 2 Z' l z) (ct : ℕ) : H.kdfBlock Z ct = H.kdfBlock Z' ct := by
  obtain ⟨w, hw⟩ := writes_counter ct
  rw [Sm3.kdfBlock, Sm3.kdfBlock, bitsToBytes_eq (hZ.append hw), bitsToBytes_eq (hZ'.append hw)]

/-- So does a key. -/
theorem kdf_congr (hZ : Writes 2 Z l z) (hZ' : Writes 2 Z' l z) (klen : ℤ) : H.kdf Z klen = H.kdf Z' klen := by
  have hblock : (fun i => H.kdfBlock Z (i + 1)) = fun i => H.kdfBlock Z' (i + 1) := by
    funext i
    exact kdfBlock_congr hZ hZ' (i + 1)
  rw [Sm3.kdf, Sm3.kdf, hblock]

/-- A key that is too long. -/
theorem kdf_too_long {klen : ℤ} (h : (2 ^ 32 - 1) * 256 ≤ klen) :
    H.kdf Z klen = .error (.exception "密钥派生函数KDF出错，请检查klen的大小！") := if_pos h

/-- The bytes that the first block is hashed from. -/
def firstInput (l z : ℕ) : Bytes := BigEndian.encode ((l + 32 + 7) / 8) (z * 2 ^ 32 + 1)

/-- They are the two coordinates and the counter. -/
theorem firstInput_eq (x : ℕ) {y : ℕ} (hy : y < 256 ^ 32) :
    firstInput 512 (x * 2 ^ 256 + y) = BigEndian.encode 32 x ++ BigEndian.encode 32 y ++ [0, 0, 0, 1] := by
  have hpow : (2 : ℕ) ^ 256 = 256 ^ 32 := by norm_num
  have hpow' : (2 : ℕ) ^ 32 = 256 ^ 4 := by norm_num
  rw [firstInput, hpow, hpow', show (512 + 32 + 7) / 8 = 32 + 32 + 4 from rfl, BigEndian.encode_append _ (by norm_num),
    BigEndian.encode_append _ hy]
  rfl

/-- The first digit of the first hash. -/
def Sm3.firstDigit (H : Sm3) (l z : ℕ) : ℕ := digitValue ((H.hash (firstInput l z)).headD '0')

/-- The first four bits of the first block. -/
theorem kdfBlock_first (hZ : Writes 2 Z l z) {bits : Text} (h : H.kdfBlock Z 1 = .ok bits) :
    numeralValue 2 (bits.take 4) = H.firstDigit l z := by
  rw [Sm3.kdfBlock, bitsToBytes_eq (hZ.append writes_counter_one), ok_bind] at h
  have hhash : Writes 16 (H.hash (firstInput l z)) (1 + 63) (numeralValue 16 (H.hash (firstInput l z))) :=
    ⟨H.isNumeral_hash _, H.length_hash _, rfl⟩
  obtain ⟨bits', hbits', hwrites⟩ := hexToBits_eq hhash
  obtain rfl : bits' = bits := Except.ok.inj (hbits'.symm.trans h)
  have hfirst : (H.hash (firstInput l z)).take 1 = [(H.hash (firstInput l z)).headD '0'] := by
    cases hlist : H.hash (firstInput l z) with
    | nil =>
      have := H.length_hash (firstInput l z)
      rw [hlist] at this
      cases this
    | cons c cs => rfl
  have hdigit := hhash.value_take
  rw [hfirst, numeralValue_singleton] at hdigit
  rw [show 4 * (1 + 63) = 4 + 252 from rfl] at hwrites
  rw [hwrites.value_take, Sm3.firstDigit, hdigit,
    show (2 : ℕ) ^ 252 = 16 ^ 63 by norm_num]

/-! ## The blocks in a row -/

section Blocks

variable {block : ℕ → Text}

/-- Texts of one width in a row, by induction on their number. -/
theorem writes_flatten {base width : ℕ} (hblock : ∀ i, ∃ v, Writes base (block i) width v) (m : ℕ) :
    ∃ v, Writes base ((List.range m).map block).flatten (width * m) v := by
  induction m with
  | zero => exact ⟨0, writes_nil base⟩
  | succ m ih =>
    obtain ⟨v, hv⟩ := ih
    obtain ⟨w, hw⟩ := hblock m
    rw [List.range_succ, List.map_append, List.flatten_append, List.map_singleton, List.flatten_singleton, Nat.mul_succ]
    exact ⟨_, hv.append hw⟩

/-- The row starts as its first block does. -/
theorem take_flatten {k : ℕ} (hk : k ≤ (block 0).length) (m : ℕ) (s : Text) :
    (((List.range (m + 1)).map block).flatten ++ s).take k = (block 0).take k := by
  rw [List.range_succ_eq_map, List.map_cons, List.flatten_cons, List.append_assoc, List.take_append_of_le_length hk]

/-- A key is the blocks in a row, the last one cut. -/
theorem kdf_eq_flatten (hblock : ∀ i, H.kdfBlock Z (i + 1) = .ok (block i)) (hlength : ∀ i, (block i).length = 256) {m r : ℕ}
    (hr0 : 0 < r) (hr : r ≤ 256) (hlimit : 256 * m + r < (2 ^ 32 - 1) * 256) :
    H.kdf Z ((256 * m + r : ℕ) : ℤ) = .ok (((List.range m).map block).flatten ++ (block m).take r) := by
  have hblocks : ((List.range (m + 1)).mapM fun i => H.kdfBlock Z (i + 1)) = .ok ((List.range (m + 1)).map block) :=
    mapM_eq_ok fun i _ => hblock i
  have hshort : ¬(2 ^ 32 - 1) * (256 : ℤ) ≤ ((256 * m + r : ℕ) : ℤ) := by
    rw [not_le]
    norm_num at hlimit ⊢
    exact_mod_cast hlimit
  obtain ⟨klen, hklen⟩ : ∃ klen : ℤ, klen = ((256 * m + r : ℕ) : ℤ) := ⟨_, rfl⟩
  rw [← hklen] at hshort ⊢
  rw [Sm3.kdf]
  simp only
  rw [if_neg hshort]
  -- A length that the blocks fill counts its last block among the whole ones.
  by_cases hcut : klen % 256 = 0
  · have hfull : r = 256 := by omega
    have hcount : (klen / 256).toNat = m + 1 := by omega
    rw [if_pos hcut, hcount, hblocks, ok_bind, if_neg (not_not.mpr hcut), hfull, List.take_of_length_le (hlength m).le,
      List.range_succ, List.map_append, List.flatten_append, List.map_singleton, List.flatten_singleton]
  · have hcount : (klen / 256 + 1).toNat = m + 1 := by omega
    have hlast : (klen - 256 * (klen / 256)).toNat = r := by omega
    rw [if_neg hcut, hcount, hblocks, ok_bind, if_pos hcut, hlast, List.range_succ, List.map_append, List.map_singleton,
      List.getLast?_concat, List.dropLast_concat]
    simp only
    rw [List.flatten_append, List.flatten_singleton]

end Blocks

/-- A key that is not too long. -/
theorem kdf_eq (hZ : Writes 2 Z l z) {klen : ℕ} (hpos : 0 < klen) (hlen : klen < (2 ^ 32 - 1) * 256) :
    ∃ t v, H.kdf Z klen = .ok t ∧ Writes 2 t klen v ∧ (4 ≤ klen → numeralValue 2 (t.take 4) = H.firstDigit l z) := by
  choose block hblock hwrites using fun i => kdfBlock_eq (H := H) hZ (i + 1)
  have hlength : ∀ i, (block i).length = 256 := fun i => (hwrites i).choose_spec.length
  -- The number of blocks before the last one, and the length of the last one.
  obtain ⟨m, r, hr0, hr, rfl⟩ : ∃ m r, 0 < r ∧ r ≤ 256 ∧ klen = 256 * m + r :=
    ⟨(klen - 1) / 256, (klen - 1) % 256 + 1, by omega, by omega, by omega⟩
  obtain ⟨v, hv⟩ := writes_flatten hwrites m
  obtain ⟨w, hw⟩ := hwrites m
  refine ⟨_, _, kdf_eq_flatten hblock hlength hr0 hr hlen, hv.append (hw.take hr), ?_⟩
  intro hfour
  rw [← kdfBlock_first hZ (hblock 0)]
  cases m with
  | zero => rw [List.range_zero, List.map_nil, List.flatten_nil, List.nil_append, List.take_take, Nat.min_eq_left (by omega)]
  | succ m => rw [take_flatten (by rw [hlength]; decide)]

end Sm2

end AuthVideo
