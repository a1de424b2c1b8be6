import AuthVideo.Board.Strings
import AuthVideo.Lemmas.Texts

/-!
# Hexadecimal texts of the boards

On eight digits `strtoul` takes all of them, so `hex_to_uint256` returns -3 nowhere and its loop writes the words that it is meant to.
A number is written by its nibbles, and read back from them.
-/

namespace AuthVideo

/-! ## `strtoul` on a segment -/

/-- A hexadecimal digit. -/
def IsHexDigit (c : UInt8) : Prop := (48 ≤ c ∧ c ≤ 57) ∨ (65 ≤ c ∧ c ≤ 70) ∨ (97 ≤ c ∧ c ≤ 102)

instance (c : UInt8) : Decidable (IsHexDigit c) := inferInstanceAs (Decidable (_ ∨ _))

theorem isSome_isxdigit_iff (c : UInt8) : (isxdigit c).isSome ↔ IsHexDigit c := by
  unfold isxdigit IsHexDigit
  split
  · rename_i h
    simp [h]
  · split
    · rename_i h
      simp [h]
    · split
      · rename_i h
        simp [h]
      · rename_i h1 h2 h3
        simp [h1, h2, h3]

/-- A digit is no blank, no sign and no `x`. -/
theorem IsHexDigit.plain {c : UInt8} (h : IsHexDigit c) : isspace c = false ∧ c ≠ 45 ∧ c ≠ 43 ∧ c ≠ 120 ∧ c ≠ 88 := by
  have hrange : 48 ≤ c.toNat ∧ c.toNat ≤ 102 ∧ c.toNat ≠ 88 := by
    rcases h with h | h | h <;>
      · have hlow := UInt8.le_iff_toNat_le.mp h.1
        have hhigh := UInt8.le_iff_toNat_le.mp h.2
        simp only [UInt8.toNat_ofNat] at hlow hhigh
        omega
  have hne : ∀ k : UInt8, k.toNat < 48 ∨ 102 < k.toNat ∨ k.toNat = 88 → c ≠ k := by
    rintro k hk rfl
    omega
  refine ⟨?_, hne 45 (by decide), hne 43 (by decide), hne 120 (by decide), hne 88 (by decide)⟩
  have hblank : ¬c ≤ 13 := by
    rw [UInt8.le_iff_toNat_le]
    change ¬c.toNat ≤ 13
    omega
  simp only [isspace, hne 32 (by decide), hblank, decide_false, Bool.and_false, Bool.or_false]

/-- The values of the digits of a text. -/
theorem mapM_isxdigit_eq {text : Bytes} (h : ∀ c ∈ text, IsHexDigit c) :
    text.mapM isxdigit = some (text.map fun c => (isxdigit c).getD 0) := by
  induction text with
  | nil => rfl
  | cons c text ih =>
    rw [List.forall_mem_cons] at h
    obtain ⟨d, hd⟩ := Option.isSome_iff_exists.mp ((isSome_isxdigit_iff c).mpr h.1)
    rw [List.mapM_cons, ih h.2, List.map_cons, hd]
    rfl

/-- A text with another character has no values. -/
theorem mapM_isxdigit_none {text : Bytes} (h : ¬∀ c ∈ text, IsHexDigit c) : text.mapM isxdigit = none := by
  induction text with
  | nil => exact absurd (fun _ hc => nomatch hc) h
  | cons c text ih =>
    rw [List.forall_mem_cons, not_and_or] at h
    rw [List.mapM_cons]
    cases hd : isxdigit c with
    | none => rfl
    | some d =>
      rcases h with hc | hrest
      · rw [← isSome_isxdigit_iff, hd] at hc
        exact absurd rfl hc
      · rw [ih hrest]
        rfl

/-- The number that the digits give, as the loop of `strtoul` makes it. -/
theorem foldl_digits (text : Bytes) (n : Nat) :
    text.foldl (fun n c => 16 * n + ((isxdigit c).getD 0).toNat) n =
      n * 16 ^ text.length + Radix.value 16 ((text.map fun c => (isxdigit c).getD 0).map UInt32.toNat) := by
  induction text generalizing n with
  | nil => simp
  | cons c text ih =>
    rw [List.foldl_cons, ih, List.map_cons, List.map_cons, Radix.value_cons, List.length_map, List.length_map, List.length_cons,
      Nat.pow_succ]
    ring

/-- A text of digits has no blanks, no sign and no `0x` in front. -/
theorem behind0x_signed {text : Bytes} (h : ∀ c ∈ text, IsHexDigit c) :
    behind0x (signed (text.dropWhile isspace)).2 = text ∧ (signed (text.dropWhile isspace)).1 = false := by
  cases text with
  | nil => exact ⟨rfl, rfl⟩
  | cons c text =>
    rw [List.forall_mem_cons] at h
    obtain ⟨hblank, hminus, hplus, -, -⟩ := h.1.plain
    have hdrop : (c :: text).dropWhile isspace = c :: text := List.dropWhile_cons_of_neg (by simp [hblank])
    have hsigned : signed (c :: text) = (false, c :: text) := by
      unfold signed
      split
      · rename_i heq
        exact absurd (List.cons.inj heq).1 hminus
      · rename_i heq
        exact absurd (List.cons.inj heq).1 hplus
      · rfl
    rw [hdrop, hsigned]
    refine ⟨?_, rfl⟩
    unfold behind0x
    split
    · rename_i x t heq
      have hx : x ∈ text := by
        rw [(List.cons.inj heq).2]
        exact List.mem_cons_self
      obtain ⟨-, -, -, hlower, hupper⟩ := (h.2 x hx).plain
      simp only at heq
      rw [if_neg fun hprefix => hprefix.1.elim hlower hupper]
      exact heq.symm
    · rfl

/-- Eight digits are taken together, and nothing is left at `endptr`. -/
theorem strtoul_eight {segment : Bytes} (h : ∀ c ∈ segment, IsHexDigit c) (hlen : segment.length = 8) :
    strtoul segment = (strtoul16 (segment.map fun c => (isxdigit c).getD 0), []) := by
  obtain ⟨htext, hsign⟩ := behind0x_signed h
  have hall : segment.takeWhile (fun c => (isxdigit c).isSome) = segment :=
    List.takeWhile_eq_self_iff.mpr fun c hc => (isSome_isxdigit_iff c).mpr (h c hc)
  have hne : segment ≠ [] := List.ne_nil_of_length_pos (by omega)
  have hdigits := (mapM_isxdigit (mapM_isxdigit_eq h)).2
  have hvalue := strtoul16_toNat ((List.length_map _).trans hlen) hdigits
  have hlt := (strtoul16 (segment.map fun c => (isxdigit c).getD 0)).toNat_lt
  have hnumber : UInt32.ofNat (Radix.value 16 ((segment.map fun c => (isxdigit c).getD 0).map UInt32.toNat)) =
      strtoul16 (segment.map fun c => (isxdigit c).getD 0) := by
    rw [← hvalue, UInt32.ofNat_toNat]
  simp only [strtoul, htext, hsign, hall, if_neg hne, foldl_digits, Nat.zero_mul, Nat.zero_add, hnumber, List.drop_length]
  rw [← hvalue, if_neg (by omega : ¬2 ^ 32 ≤ _)]
  rfl

/-! ## The loop -/

/-- Over a text of digits every turn stores its word. -/
theorem hexToUint256Loop_eq {hexStr : Bytes} (h : ∀ c ∈ hexStr, IsHexDigit c) (hlen : hexStr.length = 64) {turns : List Nat}
    (hturns : ∀ i ∈ turns, i < 8) (result : Uint256) :
    hexToUint256Loop hexStr turns result =
      (0, turns.foldl (fun result i =>
        result.set (7 - i) (strtoul16 (((hexStr.map fun c => (isxdigit c).getD 0).drop (8 * i)).take 8))) result) := by
  induction turns generalizing result with
  | nil => rfl
  | cons i turns ih =>
    rw [List.forall_mem_cons] at hturns
    have hdigits : ∀ c ∈ (hexStr.drop (i * 8)).take 8, IsHexDigit c := fun c hc =>
      h c (List.mem_of_mem_drop (List.mem_of_mem_take hc))
    have hsegment : ((hexStr.drop (i * 8)).take 8).length = 8 := by
      rw [List.length_take, List.length_drop]
      omega
    have hparsed : strtoul ((hexStr.drop (i * 8)).take 8) =
        (strtoul16 (((hexStr.map fun c => (isxdigit c).getD 0).drop (8 * i)).take 8), []) := by
      rw [strtoul_eight hdigits hsegment, List.map_take, List.map_drop, Nat.mul_comm i 8]
    simp only [hexToUint256Loop, hparsed, ne_eq, not_true_eq_false, if_false, ih hturns.2, List.foldl_cons]

/-- The eight turns write every word. -/
theorem foldl_set_words (segment : Nat → UInt32) (result : Uint256) :
    (List.range 8).foldl (fun (result : Uint256) i => result.set (7 - i) (segment i)) result =
      ⟨(List.range 8).map fun j => segment (7 - j), by simp⟩ := by
  obtain ⟨words, hlen⟩ := result
  match words, hlen with
  | [w0, w1, w2, w3, w4, w5, w6, w7], _ => exact Limbs.ext_words rfl

/-- `hex_to_uint256` writes what it is meant to and returns 0, or writes nothing and returns -1 or -2. -/
theorem hexToUint256Ret_eq (hexStr : Bytes) (result : Uint256) :
    hexToUint256Ret hexStr result =
      match hexToUint256 hexStr with
      | some a => (0, a)
      | none => (if hexStr.length ≠ 64 then -1 else -2, result) := by
  unfold hexToUint256Ret hexToUint256
  by_cases hlen : hexStr.length = 64
  · rw [if_neg (not_not.mpr hlen), if_neg (not_not.mpr hlen), if_neg (not_not.mpr hlen)]
    by_cases hdigits : ∀ c ∈ hexStr, IsHexDigit c
    · have hall : hexStr.all (fun c => (isxdigit c).isSome) = true :=
        List.all_eq_true.mpr fun c hc => (isSome_isxdigit_iff c).mpr (hdigits c hc)
      rw [if_neg (not_not.mpr hall), mapM_isxdigit_eq hdigits,
        hexToUint256Loop_eq hdigits hlen (fun i hi => List.mem_range.mp hi), foldl_set_words]
    · have hall : ¬hexStr.all (fun c => (isxdigit c).isSome) = true := fun hall =>
        hdigits fun c hc => (isSome_isxdigit_iff c).mp (List.all_eq_true.mp hall c hc)
      rw [if_pos hall, mapM_isxdigit_none hdigits]
  · rw [if_pos hlen, if_pos hlen, if_pos hlen]

/-! ## Nibbles -/

/-- The nibbles of a word, the highest first. -/
def nibbles (w : UInt32) : List UInt32 := (List.range 8).map fun i => (w >>> .ofNat (28 - 4 * i)) &&& 0xF

/-- A nibble as a digit of the word. -/
theorem toNat_nibble (w : UInt32) {k : Nat} (hk : k < 32) : ((w >>> .ofNat k) &&& 0xF).toNat = w.toNat / 2 ^ k % 16 := by
  have hshift : (UInt32.ofNat k).toNat = k := by
    rw [UInt32.toNat_ofNat']
    omega
  rw [UInt32.toNat_and, UInt32.toNat_shiftRight, hshift, Nat.mod_eq_of_lt hk, Nat.shiftRight_eq_div_pow]
  exact Nat.and_two_pow_sub_one_eq_mod (w.toNat / 2 ^ k) 4

theorem nibbles_lt {w d : UInt32} (h : d ∈ nibbles w) : d.toNat < 16 := by
  obtain ⟨i, -, rfl⟩ := List.mem_map.mp h
  rw [toNat_nibble w (by omega)]
  exact Nat.mod_lt _ (by decide)

/-- The first nibbles hold the upper part of the word. -/
theorem value_upperNibbles (n : Nat) {j : Nat} (hj : j ≤ 8) (hn : n < 2 ^ 32) :
    Radix.value 16 ((List.range j).map fun i => n / 2 ^ (28 - 4 * i) % 16) = n / 2 ^ (32 - 4 * j) := by
  induction j with
  | zero => exact (Nat.div_eq_of_lt hn).symm
  | succ j ih =>
    have hplace : 32 - 4 * (j + 1) = 28 - 4 * j := by omega
    have hpow : 2 ^ (32 - 4 * j) = 2 ^ (28 - 4 * j) * 16 := by
      have hsum : 32 - 4 * j = 28 - 4 * j + 4 := by omega
      rw [hsum, Nat.pow_add]
    rw [List.range_succ, List.map_append, List.map_singleton, Radix.value_append, ih (by omega), Radix.value_cons, Radix.value_nil,
      List.length_singleton, List.length_nil, Nat.pow_one, Nat.pow_zero, Nat.mul_one, Nat.add_zero, hplace, hpow,
      ← Nat.div_div_eq_div_mul, Nat.div_add_mod']

/-- The nibbles hold the word. -/
theorem value_nibbles (w : UInt32) : Radix.value 16 ((nibbles w).map UInt32.toNat) = w.toNat := by
  have hnibbles : (nibbles w).map UInt32.toNat = (List.range 8).map fun i => w.toNat / 2 ^ (28 - 4 * i) % 16 := by
    rw [nibbles, List.map_map]
    refine List.map_congr_left ?_
    intro i _
    exact toNat_nibble w (by omega)
  rw [hnibbles, value_upperNibbles w.toNat (Nat.le_refl 8) w.toNat_lt]
  exact Nat.div_one _

/-- The nibbles of the words of a number, the highest first. -/
def hexDigits (v : Uint256) : List UInt32 := (v.words.reverse.map nibbles).flatten

theorem hexDigits_lt {v : Uint256} {d : UInt32} (h : d ∈ hexDigits v) : d.toNat < 16 := by
  obtain ⟨ds, hds, hd⟩ := List.mem_flatten.mp h
  obtain ⟨w, -, rfl⟩ := List.mem_map.mp hds
  exact nibbles_lt hd

/-- The nibbles of words, the highest word first. -/
theorem nibbles_words (ws : List UInt32) :
    (ws.reverse.map nibbles).flatten.length = 8 * ws.length ∧
      Radix.value 16 ((ws.reverse.map nibbles).flatten.map UInt32.toNat) = Words.value ws := by
  induction ws with
  | nil => exact ⟨rfl, rfl⟩
  | cons w ws ih =>
    obtain ⟨hlen, hvalue⟩ := ih
    have hnibbles : (nibbles w).length = 8 := by rw [nibbles, List.length_map, List.length_range]
    rw [List.reverse_cons, List.map_append, List.flatten_append, List.map_singleton, List.flatten_singleton]
    constructor
    · rw [List.length_append, hlen, hnibbles, List.length_cons]
      omega
    · rw [List.map_append, Radix.value_append, hvalue, value_nibbles, List.length_map, hnibbles, Words.value_cons]
      ring

theorem length_hexDigits (v : Uint256) : (hexDigits v).length = 64 := by
  rw [hexDigits, (nibbles_words v.words).1, v.length_words]

/-- They hold the number. -/
theorem value_hexDigits (v : Uint256) : Radix.value 16 ((hexDigits v).map UInt32.toNat) = v.value := (nibbles_words v.words).2

/-- `uint256_to_hex` writes the nibbles. -/
theorem uint256ToHex_eq (v : Uint256) : uint256ToHex v = (hexDigits v).map upperHex := by
  have hword : percent08X = fun w => (nibbles w).map upperHex := by
    funext w
    rw [percent08X, nibbles, List.map_map]
    rfl
  rw [uint256ToHex, hexDigits, List.map_flatten, List.map_map, hword]
  rfl

/-! ## Reading back -/

/-- A digit that is written is read back. -/
theorem isxdigit_upperHex {d : UInt32} (hd : d.toNat < 16) : isxdigit (upperHex d) = some d := by
  obtain ⟨k, hk, rfl⟩ : ∃ k < 16, d = .ofNat k := ⟨d.toNat, hd, UInt32.ofNat_toNat.symm⟩
  interval_cases k <;> rfl

/-- The text of some digits is read back. -/
theorem mapM_isxdigit_upperHex {ds : List UInt32} (h : ∀ d ∈ ds, d.toNat < 16) : (ds.map upperHex).mapM isxdigit = some ds := by
  induction ds with
  | nil => rfl
  | cons d ds ih =>
    rw [List.forall_mem_cons] at h
    rw [List.map_cons, List.mapM_cons, isxdigit_upperHex h.1, ih h.2]
    rfl

/-- A number that is written is read back. -/
theorem hexToUint256_uint256ToHex (v : Uint256) : hexToUint256 (uint256ToHex v) = some v := by
  have hdigits : (uint256ToHex v).mapM isxdigit = some (hexDigits v) := by
    rw [uint256ToHex_eq]
    exact mapM_isxdigit_upperHex fun d hd => hexDigits_lt hd
  have hlen : (uint256ToHex v).length = 64 := by rw [uint256ToHex_eq, List.length_map, length_hexDigits]
  obtain ⟨a, ha⟩ : ∃ a, hexToUint256 (uint256ToHex v) = some a := by
    rw [hexToUint256, if_neg (not_not.mpr hlen), hdigits]
    exact ⟨_, rfl⟩
  have hvalue := hexToUint256_value ha
  rw [hexNumber, hdigits, Option.getD_some, value_hexDigits] at hvalue
  rw [ha, Limbs.value_inj hvalue]

/-- `toupper`. -/
def toupper (c : UInt8) : UInt8 := if 97 ≤ c ∧ c ≤ 122 then c - 32 else c

/-- A digit that is read is written in upper case. -/
theorem upperHex_isxdigit {c : UInt8} {d : UInt32} (h : isxdigit c = some d) : upperHex d = toupper c := by
  have hrange : (48 ≤ c.toNat ∧ c.toNat < 58) ∨ (65 ≤ c.toNat ∧ c.toNat < 71) ∨ (97 ≤ c.toNat ∧ c.toNat < 103) := by
    have hdigit := (isSome_isxdigit_iff c).mp (by rw [h]; rfl)
    simp only [IsHexDigit, UInt8.le_iff_toNat_le, UInt8.toNat_ofNat] at hdigit
    omega
  obtain ⟨k, hk, rfl⟩ : ∃ k, k = c.toNat ∧ c = .ofNat k := ⟨c.toNat, rfl, UInt8.ofNat_toNat.symm⟩
  rw [← hk] at hrange
  clear hk
  revert h d
  rcases hrange with ⟨hlow, hhigh⟩ | ⟨hlow, hhigh⟩ | ⟨hlow, hhigh⟩ <;> interval_cases k <;> · intro d h; cases h; rfl

/-- So is a text of digits. -/
theorem map_upperHex {text : Bytes} {ds : List UInt32} (h : text.mapM isxdigit = some ds) : ds.map upperHex = text.map toupper := by
  induction text generalizing ds with
  | nil =>
    cases h
    rfl
  | cons c text ih =>
    rw [List.mapM_cons] at h
    obtain ⟨d, hd, h⟩ := Option.bind_eq_some_iff.mp h
    obtain ⟨rest, hrest, h⟩ := Option.bind_eq_some_iff.mp h
    cases h
    rw [List.map_cons, List.map_cons, upperHex_isxdigit hd, ih hrest]

/-- A text that is read is written back in upper case. -/
theorem uint256ToHex_of_read {text : Bytes} {a : Uint256} (h : hexToUint256 text = some a) : uint256ToHex a = text.map toupper := by
  have hvalue := hexToUint256_value h
  unfold hexToUint256 at h
  split at h
  · cases h
  · rename_i hlen
    split at h
    · cases h
    · rename_i ds hds
      clear h
      obtain ⟨hlength, hlt⟩ := mapM_isxdigit hds
      rw [hexNumber, hds, Option.getD_some, ← value_hexDigits] at hvalue
      have hsame : (hexDigits a).map UInt32.toNat = ds.map UInt32.toNat := by
        refine Radix.value_inj (by decide) ?_ ?_ ?_ hvalue
        · rw [List.length_map, List.length_map, length_hexDigits, hlength, not_not.mp hlen]
        · exact List.forall_mem_map.mpr fun d hd => hexDigits_lt hd
        · exact List.forall_mem_map.mpr hlt
      have hdigits : hexDigits a = ds := List.map_injective_iff.mpr (fun _ _ => UInt32.toNat_inj.mp) hsame
      rw [uint256ToHex_eq, hdigits, map_upperHex hds]

end AuthVideo
