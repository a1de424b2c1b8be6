import AuthVideo.Board.Text
import AuthVideo.Lemmas.BigNum
import AuthVideo.Lib.BigEndian
import AuthVideo.Lib.Decimal
import AuthVideo.Lib.Radix
import AuthVideo.Lib.Word32
import Mathlib.Data.List.TakeWhile
import Mathlib.Data.Nat.ModEq
import Mathlib.Tactic.IntervalCases

/-!
# What the conversions of the boards compute

`uint256_to_decstr` and the lines of `auth_pre` that make bytes of a decimal text are long division, the one of bytes by ten and the
other of digits by 256. The first takes the words of its number in the order of the array, so it prints the number with its words
the other way round.
-/

namespace AuthVideo

/-! ## Texts -/

/-- A text of ASCII characters as bytes. -/
def ascii (t : List Char) : Bytes := t.map fun c => .ofNat c.toNat

/-- The text of decimal digits. -/
def numeral (ds : List Nat) : Bytes := ds.map fun d => .ofNat (48 + d)

/-- A text of decimal digits and nothing else. -/
def IsNumeral (text : Bytes) : Prop := ∀ c ∈ text, 48 ≤ c.toNat ∧ c.toNat ≤ 57

/-- The digits of a text. -/
def digitsOf (text : Bytes) : List Nat := text.map fun c => c.toNat - 48

theorem digitsOf_cons (c : UInt8) (text : Bytes) : digitsOf (c :: text) = (c.toNat - 48) :: digitsOf text := rfl

/-- The number that a text denotes. -/
def numberOf (text : Bytes) : Nat := Radix.value 10 (digitsOf text)

theorem toNat_digit {d : Nat} (hd : d < 10) : (UInt8.ofNat (48 + d)).toNat = 48 + d := by
  rw [UInt8.toNat_ofNat']
  omega

theorem isNumeral_numeral {ds : List Nat} (hds : ∀ d ∈ ds, d < 10) : IsNumeral (numeral ds) := by
  intro c hc
  obtain ⟨d, hd, rfl⟩ := List.mem_map.mp hc
  have hlt := hds d hd
  rw [toNat_digit hlt]
  omega

theorem digitsOf_numeral {ds : List Nat} (hds : ∀ d ∈ ds, d < 10) : digitsOf (numeral ds) = ds := by
  rw [digitsOf, numeral, List.map_map]
  refine (List.map_congr_left fun d hd => ?_).trans (List.map_id ds)
  have hlt := hds d hd
  simp only [Function.comp_apply, toNat_digit hlt, id]
  omega

theorem numeral_digitsOf {text : Bytes} (h : IsNumeral text) : numeral (digitsOf text) = text := by
  rw [digitsOf, numeral, List.map_map]
  refine (List.map_congr_left fun c hc => ?_).trans (List.map_id text)
  have hrange := h c hc
  have hsum : 48 + (c.toNat - 48) = c.toNat := by omega
  rw [Function.comp_apply, hsum, UInt8.ofNat_toNat, id]

theorem digitsOf_lt {text : Bytes} (h : IsNumeral text) : ∀ d ∈ digitsOf text, d < 10 := by
  intro d hd
  obtain ⟨c, hc, rfl⟩ := List.mem_map.mp hd
  have := h c hc
  omega

/-- A text without its zeros in front denotes the same number. -/
theorem numberOf_dropWhile (text : Bytes) (h : IsNumeral text) : numberOf (text.dropWhile (· = 48)) = numberOf text := by
  have hzero : ∀ c ∈ text, (c = 48 ↔ c.toNat - 48 = 0) := by
    intro c hc
    have hrange := h c hc
    rw [← UInt8.toNat_inj]
    change c.toNat = 48 ↔ _
    omega
  have hdrop : digitsOf (text.dropWhile (· = 48)) = (digitsOf text).dropWhile (· = 0) := by
    clear h
    induction text with
    | nil => rfl
    | cons c text ih =>
      rw [List.forall_mem_cons] at hzero
      by_cases hc : c = 48
      · rw [List.dropWhile_cons_of_pos (by simpa using hc), digitsOf_cons,
          List.dropWhile_cons_of_pos (by simpa using hzero.1.mp hc)]
        exact ih hzero.2
      · rw [List.dropWhile_cons_of_neg (by simpa using hc), digitsOf_cons,
          List.dropWhile_cons_of_neg (by simpa using fun hd => hc (hzero.1.mpr hd))]
  rw [numberOf, hdrop, Radix.value_dropWhile, numberOf]

/-- Nothing is left of a text without its zeros in front exactly when it denotes zero. -/
theorem dropWhile_eq_nil_iff {text : Bytes} (h : IsNumeral text) : text.dropWhile (· = 48) = [] ↔ numberOf text = 0 := by
  rw [numberOf, Radix.value_eq_zero_iff (by decide), List.dropWhile_eq_nil_iff, digitsOf, List.forall_mem_map]
  refine forall₂_congr ?_
  intro c hc
  have hrange := h c hc
  rw [decide_eq_true_iff, ← UInt8.toNat_inj]
  change c.toNat = 48 ↔ _
  omega

/-! ## Numerals -/

/-- The code of a digit. -/
theorem toNat_digitChar {d : Nat} (hd : d < 10) : d.digitChar.toNat = 48 + d := by
  interval_cases d <;> rfl

/-- The numeral of a number. -/
theorem ascii_toDigits (n : Nat) : ascii (Nat.toDigits 10 n) = numeral (Radix.digits 10 n).reverse := by
  induction n using Nat.strongRecOn with
  | ind n ih =>
    have hmod : ascii [(n % 10).digitChar] = numeral [n % 10] := by
      rw [ascii, numeral, List.map_singleton, List.map_singleton, toNat_digitChar (Nat.mod_lt n (by decide))]
    rw [Nat.toDigits_eq_if (by decide), Radix.digits_eq (by decide)]
    by_cases hlt : n < 10
    · rw [if_pos hlt, if_pos (Nat.div_eq_of_lt hlt), List.reverse_singleton, ← hmod, Nat.mod_eq_of_lt hlt]
    · have hq : n / 10 ≠ 0 := by omega
      rw [if_neg hlt, if_neg hq, List.reverse_cons, numeral, List.map_append, ← numeral, ← numeral, ← ih _ (by omega), ← hmod]
      exact List.map_append

/-- A text of digits, read as a number. -/
theorem numberOf_ascii {t : List Char} (h : ∀ c ∈ t, c.isDigit) :
    IsNumeral (ascii t) ∧ numberOf (ascii t) = Nat.ofDigitChars 10 t 0 := by
  induction t with
  | nil => exact ⟨fun _ hc => (nomatch hc), rfl⟩
  | cons c t ih =>
    rw [List.forall_mem_cons] at h
    obtain ⟨hnumeral, hvalue⟩ := ih h.2
    have hrange : 48 ≤ c.toNat ∧ c.toNat ≤ 57 := by
      have hd := h.1
      simp only [Char.isDigit, Bool.and_eq_true, decide_eq_true_eq, UInt32.le_iff_toNat_le] at hd
      exact hd
    have hbyte : (UInt8.ofNat c.toNat).toNat = c.toNat := by
      rw [UInt8.toNat_ofNat']
      omega
    constructor
    · rw [ascii, List.map_cons, IsNumeral, List.forall_mem_cons, hbyte]
      exact ⟨hrange, hnumeral⟩
    · have hlen : (digitsOf (ascii t)).length = t.length := by rw [digitsOf, ascii, List.length_map, List.length_map]
      have hfirst : Nat.ofDigitChars 10 t (10 * 0 + (c.toNat - '0'.toNat)) =
          10 ^ t.length * (10 * 0 + (c.toNat - 48)) + Nat.ofDigitChars 10 t 0 := Nat.ofDigitChars_eq_ofDigitChars_zero
      rw [numberOf] at hvalue
      rw [numberOf, ascii, List.map_cons, digitsOf_cons, hbyte, ← ascii, Radix.value_cons, hvalue, hlen, Nat.ofDigitChars_cons,
        hfirst]
      ring

/-- A numeral denotes its number. -/
theorem numberOf_toDigits (n : Nat) : numberOf (ascii (Nat.toDigits 10 n)) = n := by
  have hdigit : ∀ c ∈ Nat.toDigits 10 n, c.isDigit := fun c hc => Nat.isDigit_of_mem_toDigits (by decide) (by decide) hc
  rw [(numberOf_ascii hdigit).2]
  exact Nat.ofDigitChars_toDigits (by decide) (by decide)

/-- Numbers with one numeral are the same. -/
theorem ascii_toDigits_inj {m n : Nat} (h : ascii (Nat.toDigits 10 m) = ascii (Nat.toDigits 10 n)) : m = n := by
  rw [← numberOf_toDigits m, h, numberOf_toDigits]

/-! ## `uint256_to_decstr` -/

/-- The number at `tp`, in digits of radix 256. -/
def bytesOf (tp : Bytes) : List Nat := tp.map UInt8.toNat

theorem bytesOf_cons (t : UInt8) (tp : Bytes) : bytesOf (t :: tp) = t.toNat :: bytesOf tp := rfl

/-- Bytes hold the number that they are the digits of. -/
theorem decode_eq_value (tp : Bytes) : BigEndian.decode tp = Radix.value 256 (bytesOf tp) := by
  induction tp with
  | nil => rfl
  | cons t tp ih =>
    rw [BigEndian.decode_cons, ih, bytesOf_cons, Radix.value_cons, bytesOf, List.length_map]

/-- The inner loop is long division by ten. -/
theorem divTenLoop_eq {carry : Nat} (hcarry : carry < 10) (tp : Bytes) :
    bytesOf (divTenLoop carry tp).1 = (Radix.divide 256 10 carry (bytesOf tp)).1 ∧
      (divTenLoop carry tp).2 = (Radix.divide 256 10 carry (bytesOf tp)).2 := by
  induction tp generalizing carry with
  | nil => exact ⟨rfl, rfl⟩
  | cons t tp ih =>
    have ht := t.toNat_lt
    have hval : carry <<< 8 + t.toNat = carry * 256 + t.toNat := by rw [Nat.shiftLeft_eq]
    have hquot : (UInt8.ofNat ((carry * 256 + t.toNat) / 10)).toNat = (carry * 256 + t.toNat) / 10 := by
      rw [UInt8.toNat_ofNat']
      omega
    obtain ⟨hrest, hrem⟩ := ih (Nat.mod_lt (carry * 256 + t.toNat) (by decide : 0 < 10))
    rw [bytesOf_cons, Radix.divide_cons, ← hrest, ← hrem]
    simp only [divTenLoop, hval, bytesOf_cons, hquot, and_self]

/-- A turn of the outer loop takes one decimal digit off. -/
theorem decstrTurn_digit : Radix.DigitTurn decstrTurn 10 (fun s => IsNumeral s.2) (fun s => Radix.value 256 (bytesOf s.1))
    (fun s => (digitsOf s.2).reverse) fun result ds => result = numeral ds.reverse := by
  rintro ⟨tp, result⟩ hresult
  obtain ⟨hquotient, hremainder⟩ := divTenLoop_eq (by decide : 0 < 10) tp
  have hvalue : Radix.value 256 (bytesOf (divTenLoop 0 tp).1) = Radix.value 256 (bytesOf tp) / 10 := by
    rw [hquotient, Radix.divide_quotient (by decide)]
  have hdigit : (divTenLoop 0 tp).2 = Radix.value 256 (bytesOf tp) % 10 := by
    rw [hremainder, Radix.divide_remainder (by decide)]
  have hlt : Radix.value 256 (bytesOf tp) % 10 < 10 := Nat.mod_lt _ (by decide)
  have hzero : ((divTenLoop 0 tp).1.all (· = 0)) = true ↔ Radix.value 256 (bytesOf tp) / 10 = 0 := by
    rw [← hvalue, ← decode_eq_value, BigEndian.decode_eq_zero_iff, List.all_eq_true]
    simp only [decide_eq_true_eq]
  have hout : digitsOf (.ofNat (48 + Radix.value 256 (bytesOf tp) % 10) :: result) =
      Radix.value 256 (bytesOf tp) % 10 :: digitsOf result := by
    rw [digitsOf_cons, toNat_digit hlt, Nat.add_sub_cancel_left]
  have hnumeral : IsNumeral (.ofNat (48 + Radix.value 256 (bytesOf tp) % 10) :: result) := by
    rw [IsNumeral, List.forall_mem_cons, toNat_digit hlt]
    exact ⟨by omega, hresult⟩
  simp only [decstrTurn, hdigit]
  by_cases hq : Radix.value 256 (bytesOf tp) / 10 = 0
  · refine .inr ⟨hq, _, if_pos (hzero.mpr hq), ?_⟩
    rw [← List.reverse_cons, List.reverse_reverse, ← hout]
    exact (numeral_digitsOf hnumeral).symm
  · refine .inl ⟨hq, _, if_neg fun h => hq (hzero.mp h), hnumeral, hvalue, ?_⟩
    rw [hout, List.reverse_cons]

/-- A number with its words the other way round. -/
def Limbs.reversed {n : Nat} (a : Limbs n) : Limbs n := ⟨a.words.reverse, by rw [List.length_reverse, a.length_words]⟩

@[simp] theorem Limbs.reversed_reversed {n : Nat} (a : Limbs n) : a.reversed.reversed = a := by
  simp [Limbs.reversed]

theorem length_wordsBytes (ws : List UInt32) : (ws.map limbBytes).flatten.length = 4 * ws.length := by
  induction ws with
  | nil => rfl
  | cons w ws ih =>
    rw [List.map_cons, List.flatten_cons, List.length_append, ih, List.length_cons]
    exact Nat.add_comm 4 _

/-- The bytes of a word hold it. -/
theorem value_limbBytes (w : UInt32) : Radix.value 256 (bytesOf (limbBytes w)) = w.toNat := by
  have hword := Word32.toNat_of_bytes (w >>> 24).toUInt8 (w >>> 16).toUInt8 (w >>> 8).toUInt8 w.toUInt8
  rw [Word32.word_of_bytes] at hword
  rw [← decode_eq_value, hword]
  simp only [limbBytes, BigEndian.decode, List.foldl_cons, List.foldl_nil, Nat.zero_mul, Nat.zero_add]

/-- The bytes of the words in their order hold the number with its words the other way round. -/
theorem decode_uint256Bytes (a : Uint256) : BigEndian.decode (uint256Bytes a) = a.reversed.value := by
  have hwords : ∀ ws : List UInt32, Radix.value 256 (bytesOf (ws.map limbBytes).flatten) = Words.value ws.reverse := by
    intro ws
    induction ws with
    | nil => rfl
    | cons w ws ih =>
      have hlen : (bytesOf (ws.map limbBytes).flatten).length = 4 * ws.length := by
        rw [bytesOf, List.length_map, length_wordsBytes]
      have hpow : 256 ^ (4 * ws.length) = 2 ^ (32 * ws.length) := by
        rw [Nat.pow_mul, Nat.pow_mul]
      rw [List.map_cons, List.flatten_cons, bytesOf, List.map_append, ← bytesOf, ← bytesOf, Radix.value_append, value_limbBytes, ih,
        hlen, hpow, List.reverse_cons, Words.value_concat, List.length_reverse]
      ring
  rw [decode_eq_value, uint256Bytes, hwords]
  rfl

/-- `uint256_to_decstr` gives the numeral of the number with its words the other way round. -/
theorem uint256ToDecstr_eq (a : Uint256) : uint256ToDecstr a = some (ascii (Nat.toDigits 10 a.reversed.value)) := by
  have hvalue : Radix.value 256 (bytesOf (uint256Bytes a)) = a.reversed.value := by
    rw [← decode_eq_value, decode_uint256Bytes]
  have hlen : (Radix.digits 10 (Radix.value 256 (bytesOf (uint256Bytes a)))).length < 79 := by
    refine Nat.lt_succ_of_le (Radix.length_digits_le (by decide) (by decide) ?_)
    rw [hvalue]
    exact Nat.lt_trans a.reversed.value_lt (by decide)
  obtain ⟨result, hrun, rfl⟩ := Radix.iterate_digits (s := (uint256Bytes a, [])) (by decide) decstrTurn_digit
    (fun _ hc => nomatch hc) hlen
  rw [uint256ToDecstr, hrun, hvalue, ascii_toDigits]
  rfl

/-! ## The bytes of a decimal text -/

theorem ofInt_natCast (n : Nat) : UInt8.ofInt n = UInt8.ofNat n := by
  rw [← UInt8.toNat_inj]
  simp [UInt8.ofInt]
  omega

/-- The inner loop is long division by 256. -/
theorem divByteLoop_eq (carry : Nat) {text : Bytes} (h : IsNumeral text) :
    divByteLoop carry text =
      (numeral (Radix.divide 10 256 carry (digitsOf text)).1, ((Radix.divide 10 256 carry (digitsOf text)).2 : Int)) := by
  induction text generalizing carry with
  | nil => rfl
  | cons c text ih =>
    rw [IsNumeral, List.forall_mem_cons] at h
    have hdigit : (carry : Int) * 10 + ((c.toNat : Int) - 48) = ((carry * 10 + (c.toNat - 48) : Nat) : Int) := by
      have := h.1.1
      omega
    have hrest := ih ((carry * 10 + (c.toNat - 48)) % 256) h.2
    have hquot : 48 + Int.tdiv ((carry * 10 + (c.toNat - 48) : Nat) : Int) 256 =
        ((48 + (carry * 10 + (c.toNat - 48)) / 256 : Nat) : Int) := rfl
    have hrem : Int.tmod ((carry * 10 + (c.toNat - 48) : Nat) : Int) 256 =
        (((carry * 10 + (c.toNat - 48)) % 256 : Nat) : Int) := rfl
    rw [digitsOf_cons, Radix.divide_cons]
    simp only [divByteLoop, hdigit, hquot, hrem, hrest, ofInt_natCast]
    rfl

/-- A turn of the outer loop takes one byte off, while there is room for it. -/
theorem bigIntTurn_digit :
    Radix.DigitTurn bigIntTurn 256
      (fun s => s.1 ≠ [] ∧ IsNumeral s.1 ∧ s.2.length + (Radix.digits 256 (numberOf s.1)).length ≤ 128)
      (fun s => numberOf s.1) (fun s => bytesOf s.2) fun result ds => bytesOf result = ds := by
  rintro ⟨ptr, stored⟩ ⟨hne, hptr, hroom⟩
  change stored.length + (Radix.digits 256 (numberOf ptr)).length ≤ 128 at hroom
  have hdigits := Radix.digits_eq (by decide : 1 < 256) (numberOf ptr)
  have hnext : IsNumeral (numeral (Radix.divide 10 256 0 (digitsOf ptr)).1) :=
    isNumeral_numeral (Radix.divide_digits (by decide) (digitsOf_lt hptr))
  have hquotient : numberOf (numeral (Radix.divide 10 256 0 (digitsOf ptr)).1) = numberOf ptr / 256 := by
    rw [numberOf, digitsOf_numeral (Radix.divide_digits (by decide) (digitsOf_lt hptr)), Radix.divide_quotient (by decide)]
    rfl
  have hremainder : (Radix.divide 10 256 0 (digitsOf ptr)).2 = numberOf ptr % 256 := Radix.divide_remainder (by decide) ..
  have hlength : stored.length < 128 := by
    rw [hdigits, List.length_cons] at hroom
    omega
  have hstored : bytesOf (stored ++ [.ofInt ((Radix.divide 10 256 0 (digitsOf ptr)).2 : Int)]) =
      bytesOf stored ++ [numberOf ptr % 256] := by
    rw [bytesOf, List.map_append, List.map_singleton, ofInt_natCast, hremainder, UInt8.toNat_ofNat', Nat.mod_mod]
    rfl
  have hturn := divByteLoop_eq 0 hptr
  rw [Int.natCast_zero] at hturn
  simp only [bigIntTurn, if_neg hne, hturn, if_pos hlength]
  by_cases hq : numberOf ptr / 256 = 0
  · exact .inr ⟨hq, _, if_pos ((dropWhile_eq_nil_iff hnext).mpr (hquotient.trans hq)), hstored⟩
  · have hleft : (numeral (Radix.divide 10 256 0 (digitsOf ptr)).1).dropWhile (· = 48) ≠ [] := fun hnil =>
      hq (hquotient.symm.trans ((dropWhile_eq_nil_iff hnext).mp hnil))
    have hnumber := (numberOf_dropWhile _ hnext).trans hquotient
    refine .inl ⟨hq, _, if_neg hleft, ⟨hleft, ?_, ?_⟩, hnumber, hstored⟩
    · intro c hc
      exact hnext c ((List.dropWhile_sublist _).subset hc)
    · rw [if_neg hq] at hdigits
      rw [hdigits, List.length_cons] at hroom
      rw [hnumber, List.length_append, List.length_singleton]
      omega

/-- The bytes of a number, the highest first, at least one and without zeros in front. -/
def shortest (n : Nat) : Bytes := (Radix.digits 256 n).reverse.map .ofNat

/-- A text of digits becomes the bytes of its number, where 128 are enough. -/
theorem bigIntBytes_eq {text : Bytes} (hne : text ≠ []) (h : IsNumeral text) {fuel : Nat}
    (hfuel : (Radix.digits 256 (numberOf text)).length < fuel) (hroom : (Radix.digits 256 (numberOf text)).length ≤ 128) :
    bigIntBytes fuel text = some (shortest (numberOf text)) := by
  obtain ⟨result, hrun, hresult⟩ := Radix.iterate_digits (s := (text, [])) (by decide) bigIntTurn_digit
    ⟨hne, h, by rwa [List.length_nil, Nat.zero_add]⟩ hfuel
  rw [bigIntBytes, hrun, shortest, List.map_reverse]
  have hbytes : (bytesOf result).map UInt8.ofNat = result := by
    rw [bytesOf, List.map_map]
    exact (List.map_congr_left fun c _ => UInt8.ofNat_toNat).trans (List.map_id _)
  rw [hresult] at hbytes
  exact congrArg (fun r => some (List.reverse r)) hbytes.symm

/-! ## Words of a digest -/

/-- `sm3_to_uint256` takes the words of a digest in their order. -/
theorem sm3ToUint256_bytes (a : Uint256) : sm3ToUint256 (uint256Bytes a) = a := by
  obtain ⟨words, hlen⟩ := a
  match words, hlen with
  | [w0, w1, w2, w3, w4, w5, w6, w7], _ =>
    have hwords : (sm3ToUint256 (uint256Bytes ⟨[w0, w1, w2, w3, w4, w5, w6, w7], rfl⟩)).words =
        [w0, w1, w2, w3, w4, w5, w6, w7].map fun w : UInt32 => ((w >>> 24).toUInt8.toUInt32 <<< 24) |||
          ((w >>> 16).toUInt8.toUInt32 <<< 16) ||| ((w >>> 8).toUInt8.toUInt32 <<< 8) ||| w.toUInt8.toUInt32 := rfl
    simp only [Word32.word_of_bytes, List.map_id'] at hwords
    exact Limbs.ext_words hwords

/-- The mask, as numbers. -/
theorem Limbs.value_xor {n : Nat} (a b : Limbs n) : (a.xor b).value = a.value ^^^ b.value :=
  Words.value_zipWith_xor (a.length_words.trans b.length_words.symm)

/-! ## Hexadecimal texts -/

/-- The number that a text denotes in base 16. -/
def hexNumber (text : Bytes) : Nat := Radix.value 16 (((text.mapM isxdigit).getD []).map UInt32.toNat)

theorem isxdigit_lt {c : UInt8} {d : UInt32} (h : isxdigit c = some d) : d.toNat < 16 := by
  have hsub : ∀ k l : UInt8, k ≤ c → c ≤ l → l.toNat < k.toNat + 16 → (c - k).toUInt32.toNat < 16 := by
    intro k l hk hl hlt
    have hle := UInt8.le_iff_toNat_le.mp hl
    rw [UInt8.toNat_toUInt32, UInt8.toNat_sub_of_le _ _ hk]
    omega
  unfold isxdigit at h
  split at h
  · rename_i hc
    cases h
    exact hsub 48 57 hc.1 hc.2 (by decide)
  · split at h
    · rename_i hc
      cases h
      exact hsub 55 70 (UInt8.le_trans (by decide) hc.1) hc.2 (by decide)
    · split at h
      · rename_i hc
        cases h
        exact hsub 87 102 (UInt8.le_trans (by decide) hc.1) hc.2 (by decide)
      · cases h

/-- The digits of a text. -/
theorem mapM_isxdigit {text : Bytes} {digits : List UInt32} (h : text.mapM isxdigit = some digits) :
    digits.length = text.length ∧ ∀ d ∈ digits, d.toNat < 16 := by
  induction text generalizing digits with
  | nil =>
    cases h
    exact ⟨rfl, fun _ hd => nomatch hd⟩
  | cons c text ih =>
    rw [List.mapM_cons] at h
    obtain ⟨d, hd, h⟩ := Option.bind_eq_some_iff.mp h
    obtain ⟨rest, hrest, h⟩ := Option.bind_eq_some_iff.mp h
    cases h
    obtain ⟨hlen, hlt⟩ := ih hrest
    exact ⟨congrArg (· + 1) hlen, List.forall_mem_cons.mpr ⟨isxdigit_lt hd, hlt⟩⟩

/-- The value of a segment, in a word that wraps. -/
theorem strtoul16_mod (segment : List UInt32) (n : UInt32) :
    (segment.foldl (fun n digit => 16 * n + digit) n).toNat =
      (n.toNat * 16 ^ segment.length + Radix.value 16 (segment.map UInt32.toNat)) % 2 ^ 32 := by
  induction segment generalizing n with
  | nil => simp
  | cons d segment ih =>
    have hstep : (16 * n + d).toNat = (16 * n.toNat + d.toNat) % 2 ^ 32 := by
      rw [UInt32.toNat_add, UInt32.toNat_mul, Nat.mod_add_mod]
      rfl
    have hmod : (16 * n.toNat + d.toNat) % 2 ^ 32 * 16 ^ segment.length + Radix.value 16 (segment.map UInt32.toNat) ≡
        (16 * n.toNat + d.toNat) * 16 ^ segment.length + Radix.value 16 (segment.map UInt32.toNat) [MOD 2 ^ 32] :=
      ((Nat.mod_modEq _ _).mul_right _).add_right _
    rw [List.foldl_cons, ih, hstep, List.map_cons, Radix.value_cons, List.length_map, List.length_cons, Nat.pow_succ]
    refine hmod.trans (congrArg (· % 2 ^ 32) ?_)
    ring

/-- A segment of eight digits fits. -/
theorem strtoul16_toNat {segment : List UInt32} (hlen : segment.length = 8) (hdigits : ∀ d ∈ segment, d.toNat < 16) :
    (strtoul16 segment).toNat = Radix.value 16 (segment.map UInt32.toNat) := by
  have hlt : Radix.value 16 (segment.map UInt32.toNat) < 16 ^ (segment.map UInt32.toNat).length :=
    Radix.value_lt (by decide) (List.forall_mem_map.mpr hdigits)
  rw [List.length_map, hlen] at hlt
  change _ < 2 ^ 32 at hlt
  rw [strtoul16, strtoul16_mod, UInt32.toNat_zero, Nat.zero_mul, Nat.zero_add, Nat.mod_eq_of_lt hlt]

/-- Segments of eight digits, the highest first, are words, the lowest first. -/
theorem segments_value (k : Nat) {digits : List UInt32} (hlen : digits.length = 8 * (k + 1)) (hdigits : ∀ d ∈ digits, d.toNat < 16) :
    Words.value ((List.range (k + 1)).map fun j => strtoul16 ((digits.drop (8 * (k - j))).take 8)) =
      Radix.value 16 (digits.map UInt32.toNat) := by
  induction k generalizing digits with
  | zero =>
    have hall : digits.take 8 = digits := List.take_of_length_le (by omega)
    have hone : (List.range (0 + 1)).map (fun j => strtoul16 ((digits.drop (8 * (0 - j))).take 8)) =
        [strtoul16 (digits.take 8)] := rfl
    rw [hone, Words.value_cons, Words.value_nil, hall, strtoul16_toNat hlen hdigits]
    rfl
  | succ k ih =>
    have hrest : ∀ d ∈ digits.drop 8, d.toNat < 16 := fun d hd => hdigits d (List.mem_of_mem_drop hd)
    have hfirst : ∀ d ∈ digits.take 8, d.toNat < 16 := fun d hd => hdigits d (List.mem_of_mem_take hd)
    have hlow : ((List.range (k + 1)).map fun j => strtoul16 ((digits.drop (8 * (k + 1 - j))).take 8)) =
        (List.range (k + 1)).map fun j => strtoul16 (((digits.drop 8).drop (8 * (k - j))).take 8) := by
      refine List.map_congr_left ?_
      intro j hj
      have hle := List.mem_range.mp hj
      have hskip : 8 * (k + 1 - j) = 8 + 8 * (k - j) := by omega
      rw [List.drop_drop, hskip]
    have hhigh : strtoul16 ((digits.drop (8 * (k + 1 - (k + 1)))).take 8) = strtoul16 (digits.take 8) := by
      rw [Nat.sub_self]
      rfl
    have hpow : 2 ^ (32 * (k + 1)) = 16 ^ (8 * (k + 1)) := by
      rw [Nat.pow_mul, Nat.pow_mul]
    have hsplit : digits.map UInt32.toNat = (digits.take 8).map UInt32.toNat ++ (digits.drop 8).map UInt32.toNat := by
      rw [← List.map_append, List.take_append_drop]
    have hdrop : (digits.drop 8).length = 8 * (k + 1) := by
      rw [List.length_drop]
      omega
    have htake : (digits.take 8).length = 8 := List.length_take_of_le (by omega)
    rw [List.range_succ, List.map_append, List.map_singleton, Words.value_concat, hlow, ih hdrop hrest, hhigh,
      strtoul16_toNat htake hfirst, List.length_map, List.length_range, hpow, hsplit, Radix.value_append, List.length_map, hdrop]
    ring

/-- `hex_to_uint256` writes the number that its text denotes. -/
theorem hexToUint256_value {hexStr : Bytes} {a : Uint256} (h : hexToUint256 hexStr = some a) : a.value = hexNumber hexStr := by
  unfold hexToUint256 at h
  split at h
  · cases h
  · rename_i hlen
    split at h
    · cases h
    · rename_i digits hdigits
      cases h
      obtain ⟨hlength, hlt⟩ := mapM_isxdigit hdigits
      rw [hexNumber, hdigits, Option.getD_some, ← segments_value 7 (hlength.trans (not_not.mp hlen)) hlt]
      rfl

end AuthVideo
