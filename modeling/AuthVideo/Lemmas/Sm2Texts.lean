import AuthVideo.Sm2
import AuthVideo.Lib.BigEndian
import AuthVideo.Lemmas.Python

/-!
# The conversions of the SM2 comparison

A text of digits is followed by its length and its number. Every conversion keeps the number and changes the length in a known way,
so bytes come back from bits and from hexadecimal digits as they were.
-/

namespace AuthVideo

namespace Sm2

/-- A text of `len` digits of the base that denotes `n`. -/
structure Writes (base : ℕ) (s : Text) (len n : ℕ) : Prop where
  isNumeral : IsNumeral base s
  length : s.length = len
  value : numeralValue base s = n

/-- The bases of the texts: their digits are those of `eval`. -/
class Base (b : ℕ) : Prop where
  one_lt : 1 < b
  le_sixteen : b ≤ 16

instance base_two : Base 2 := ⟨by decide, by decide⟩

instance base_sixteen : Base 16 := ⟨by decide, le_rfl⟩

section Rules

variable {b len len' n n' : ℕ} {s t : Text}

/-! ## Numerals -/

theorem digitValue_digitChar : ∀ d < 16, digitValue (Nat.digitChar d) = d := by decide

theorem numeralValue_append (b : ℕ) (s t : Text) :
    numeralValue b (s ++ t) = numeralValue b s * b ^ t.length + numeralValue b t := by
  rw [numeralValue, List.map_append, Radix.value_append, List.length_map]
  rfl

theorem numeralValue_singleton (b : ℕ) (c : Char) : numeralValue b [c] = digitValue c := by
  rw [numeralValue, List.map_singleton, Radix.value_cons, List.length_nil, pow_zero, mul_one, Radix.value_nil, add_zero]

/-- One text behind another. -/
theorem Writes.append (h : Writes b s len n) (h' : Writes b t len' n') :
    Writes b (s ++ t) (len + len') (n * b ^ len' + n') where
  isNumeral := by
    intro c hc
    rcases List.mem_append.mp hc with hc | hc
    · exact h.isNumeral c hc
    · exact h'.isNumeral c hc
  length := by rw [List.length_append, h.length, h'.length]
  value := by rw [numeralValue_append, h.value, h'.value, h'.length]

/-- A single digit. -/
theorem writes_singleton {c : Char} (hc : digitValue c < b) : Writes b [c] 1 (digitValue c) where
  isNumeral := by
    intro d hd
    rwa [List.mem_singleton.mp hd]
  length := rfl
  value := numeralValue_singleton b c

theorem writes_nil (b : ℕ) : Writes b [] 0 0 := ⟨fun _ hc => absurd hc List.not_mem_nil, rfl, rfl⟩

/-- A text of `len` digits denotes a number below the power of the b. -/
theorem Writes.lt [Base b] (h : Writes b s len n) : n < b ^ len := by
  rw [← h.value, ← h.length, numeralValue, ← List.length_map (f := digitValue)]
  refine Radix.value_lt Base.one_lt ?_
  intro d hd
  obtain ⟨c, hc, rfl⟩ := List.mem_map.mp hd
  exact h.isNumeral c hc

/-- The numeral of a number. -/
theorem writes_toDigits (b : ℕ) [hb : Base b] (n : ℕ) : Writes b (Nat.toDigits b n) (Nat.toDigits b n).length n := by
  obtain ⟨hbase, h16⟩ := hb
  induction n using Nat.strong_induction_on with
  | _ n ih =>
    have hdigit : ∀ d < b, Writes b [Nat.digitChar d] 1 d := by
      intro d hd
      have hvalue := digitValue_digitChar d (by omega)
      have hsingle := writes_singleton (b := b) (c := Nat.digitChar d) (by omega)
      rwa [hvalue] at hsingle
    rcases Nat.lt_or_ge n b with hlt | hge
    · rw [Nat.toDigits_of_lt_base hlt]
      exact hdigit n hlt
    · have happend := (ih (n / b) (Nat.div_lt_self (by omega) hbase)).append (hdigit (n % b) (Nat.mod_lt _ (by omega)))
      rw [pow_one, Nat.div_add_mod'] at happend
      rw [Nat.toDigits_of_base_le hbase hge, List.length_append]
      exact happend

/-- Zeros on the left. -/
theorem Writes.rjust [hb : Base b] (h : Writes b s len n) {width : ℕ} (hwidth : len ≤ width) :
    Writes b (rjust width s) width n := by
  have hzeros : ∀ k, Writes b (List.replicate k '0') k 0 := by
    intro k
    induction k with
    | zero => exact writes_nil b
    | succ k ih =>
      have hzero : digitValue '0' < b := Nat.zero_lt_of_lt hb.one_lt
      have hcons := (writes_singleton hzero).append ih
      rw [show digitValue '0' = 0 from rfl, zero_mul, zero_add, add_comm] at hcons
      exact hcons
  have happend := (hzeros (width - s.length)).append h
  rw [zero_mul, zero_add, h.length, Nat.sub_add_cancel hwidth] at happend
  rwa [Sm2.rjust, h.length]

/-- A number in a field of a width. -/
theorem writes_rjust_toDigits [hb : Base b] {width : ℕ} (hwidth : 0 < width) (hn : n < b ^ width) :
    Writes b (rjust width (Nat.toDigits b n)) width n :=
  (writes_toDigits b n).rjust ((Nat.length_toDigits_le_iff hb.one_lt hwidth).mpr hn)

/-- The number of a text is what `eval` gives. -/
theorem Writes.eval (h : Writes b s len n) (hlen : 0 < len) : evalNumeral b s = .ok n := by
  have hne : s ≠ [] := by
    rintro rfl
    have := h.length
    rw [List.length_nil] at this
    omega
  rw [evalNumeral, if_pos ⟨hne, h.isNumeral⟩, h.value]

/-- A text is a first part and the rest. -/
theorem Writes.split (h : Writes b s (len + len') n) : ∃ m r,
    Writes b (s.take len) len m ∧ Writes b (s.drop len) len' r ∧ n = m * b ^ len' + r := by
  have htake : (s.take len).length = len := by
    rw [List.length_take, h.length]
    omega
  have hdrop : (s.drop len).length = len' := by
    rw [List.length_drop, h.length]
    omega
  refine ⟨numeralValue b (s.take len), numeralValue b (s.drop len),
    ⟨fun c hc => h.isNumeral c (List.mem_of_mem_take hc), htake, rfl⟩,
    ⟨fun c hc => h.isNumeral c (List.mem_of_mem_drop hc), hdrop, rfl⟩, ?_⟩
  rw [← h.value, ← hdrop, ← numeralValue_append, List.take_append_drop]

/-! ## Bytes out of digits -/

/-- A first group of digits and the others. -/
theorem evalBytes_append {width k m : ℕ} (hwidth : 0 < width) (hs : Writes b s width m) (t : Text) :
    evalBytes b width (k + 1) (s ++ t) = (evalBytes b width k t).map fun bs => UInt8.ofNat m :: bs := by
  have hfirst : Segments.slice (s ++ t) (0 * width) (0 * width + width) = s := by
    rw [Segments.slice, zero_mul, zero_add, List.drop_zero, Nat.sub_zero, ← hs.length, List.take_left]
  have hrest : ∀ i, Segments.slice (s ++ t) ((i + 1) * width) ((i + 1) * width + width) =
      Segments.slice t (i * width) (i * width + width) := by
    intro i
    rw [Segments.slice, Segments.slice, Nat.add_sub_cancel_left, Nat.add_sub_cancel_left, Nat.succ_mul, add_comm (i * width),
      ← hs.length, ← List.drop_drop, List.drop_left]
  rw [evalBytes, evalBytes, List.range_succ_eq_map, List.mapM_cons, hfirst, hs.eval hwidth]
  simp only [ok_bind, pure_bind, List.mapM_map]
  simp only [Function.comp_def, Nat.succ_eq_add_one, hrest]
  rfl

/-- The groups of a text are the bytes of its number. -/
theorem evalBytes_eq [Base b] {width : ℕ} (hwidth : 0 < width) (hbyte : b ^ width = 256) {k : ℕ}
    (h : Writes b s (k * width) n) : evalBytes b width k s = .ok (BigEndian.encode k n) := by
  induction k generalizing s n with
  | zero => rfl
  | succ k ih =>
    rw [Nat.succ_mul, add_comm] at h
    obtain ⟨m, r, hm, hr, rfl⟩ := h.split
    have hlt := hr.lt
    have hpow : b ^ (k * width) = 256 ^ k := by rw [mul_comm, pow_mul, hbyte]
    rw [hpow] at hlt ⊢
    rw [← List.take_append_drop width s, evalBytes_append hwidth hm, ih hr, add_comm k, BigEndian.encode_append 1 hlt]
    rfl

end Rules

/-! ## Powers of the bases -/

theorem two_pow_four_mul (m : ℕ) : 2 ^ (4 * m) = 16 ^ m := by
  rw [pow_mul]
  norm_num

theorem two_pow_eight_mul (m : ℕ) : 2 ^ (8 * m) = 256 ^ m := by
  rw [pow_mul]
  norm_num

theorem sixteen_pow_two_mul (m : ℕ) : 16 ^ (2 * m) = 256 ^ m := by
  rw [pow_mul]
  norm_num

/-! ## The conversions -/

section Conversions

variable {s h : Text} {len n : ℕ}

/-- `int_to_bytes` of a number that fits. -/
theorem intToBytes_eq {k : ℕ} (hk : 0 < k) (hn : n < 256 ^ k) : intToBytes n k = .ok (BigEndian.encode k n) := by
  have hfits : ¬(256 : ℤ) ^ k ≤ n := by
    rw [not_le]
    exact_mod_cast hn
  have hhex : n < 16 ^ (k * 2) := by
    rw [mul_comm, pow_mul]
    exact hn
  rw [intToBytes, if_neg hfits, if_neg (by omega), Int.toNat_natCast]
  exact evalBytes_eq (by decide) (by decide) (writes_rjust_toDigits (by omega) hhex)

/-- `bytes_to_int` is the number that the bytes hold. -/
theorem bytesToInt_eq (M : Bytes) : bytesToInt M = BigEndian.decode M := by
  have hloop : ∀ x, (List.range M.length).reverse.foldl (fun x i => x + 256 ^ (M.length - 1 - i) * (M.getD i 0).toNat) x =
      x + BigEndian.decode M := by
    induction M with
    | nil => exact fun x => rfl
    | cons b M ih =>
      intro x
      have hshift : (fun x i => x + 256 ^ (M.length - (i + 1)) * ((b :: M).getD (i + 1) 0).toNat) =
          fun x i => x + 256 ^ (M.length - 1 - i) * (M.getD i 0).toNat := by
        funext x i
        rw [List.getD_cons_succ, show M.length - (i + 1) = M.length - 1 - i by omega]
      have hrange : (List.range (b :: M).length).reverse = (List.range M.length).reverse.map Nat.succ ++ [0] := by
        rw [List.length_cons, List.range_succ_eq_map, List.reverse_cons, List.map_reverse]
      rw [hrange, List.foldl_append, List.foldl_map, List.foldl_cons, List.foldl_nil, BigEndian.decode_cons, List.getD_cons_zero,
        List.length_cons, Nat.add_sub_cancel, Nat.sub_zero]
      simp only [Nat.succ_eq_add_one]
      rw [hshift, ih, add_assoc, add_comm (BigEndian.decode M), mul_comm]
  rw [bytesToInt, hloop, Nat.zero_add]

/-- `bits_to_bytes` keeps the number. -/
theorem bitsToBytes_eq (hs : Writes 2 s len n) : bitsToBytes s = .ok (BigEndian.encode ((len + 7) / 8) n) := by
  rw [bitsToBytes, hs.length]
  exact evalBytes_eq (by decide) (by decide) (hs.rjust (by omega))

/-- Bytes written in fields of one width. -/
theorem writes_flatMap {base width : ℕ} [Base base] (hwidth : 0 < width) (hbyte : base ^ width = 256) (M : Bytes) :
    Writes base (M.flatMap fun i => rjust width (Nat.toDigits base i.toNat)) (width * M.length) (BigEndian.decode M) := by
  induction M with
  | nil => exact writes_nil base
  | cons b M ih =>
    have hb : b.toNat < base ^ width := by
      rw [hbyte]
      exact b.toNat_lt
    have happend := (writes_rjust_toDigits hwidth hb).append ih
    rw [pow_mul, hbyte, ← BigEndian.decode_cons, add_comm, ← Nat.mul_succ] at happend
    exact happend

/-- `bytes_to_bits` keeps the number. -/
theorem writes_bytesToBits (M : Bytes) : Writes 2 (bytesToBits M) (8 * M.length) (BigEndian.decode M) :=
  writes_flatMap (by decide) (by decide) M

/-- `bytes_to_hex` keeps the number. -/
theorem writes_bytesToHex (M : Bytes) : Writes 16 (bytesToHex M) (2 * M.length) (BigEndian.decode M) :=
  writes_flatMap (by decide) (by decide) M

/-- The bits of a number in `k` bytes. -/
theorem writes_bytesToBits_encode {k : ℕ} (hn : n < 256 ^ k) : Writes 2 (bytesToBits (BigEndian.encode k n)) (8 * k) n := by
  have hbits := writes_bytesToBits (BigEndian.encode k n)
  rwa [BigEndian.length_encode, BigEndian.decode_encode hn] at hbits

/-- The hexadecimal digits of a number in `k` bytes. -/
theorem writes_bytesToHex_encode {k : ℕ} (hn : n < 256 ^ k) : Writes 16 (bytesToHex (BigEndian.encode k n)) (2 * k) n := by
  have hhex := writes_bytesToHex (BigEndian.encode k n)
  rwa [BigEndian.length_encode, BigEndian.decode_encode hn] at hhex

/-- `hex_to_bits` keeps the number. -/
theorem hexToBits_eq (hh : Writes 16 h len n) : ∃ bits, hexToBits h = .ok bits ∧ Writes 2 bits (4 * len) n := by
  induction h generalizing len n with
  | nil =>
    have hlen : 0 = len := hh.length
    have hn : 0 = n := hh.value
    subst hlen hn
    exact ⟨[], rfl, writes_nil 2⟩
  | cons c h ih =>
    have hsplit : Writes 16 (c :: h) (1 + h.length) n := ⟨hh.isNumeral, by rw [List.length_cons, add_comm], hh.value⟩
    obtain ⟨m, r, hm, hr, rfl⟩ := hsplit.split
    have hm' : Writes 16 [c] 1 m := hm
    obtain ⟨bits, hbits, hwrites⟩ := ih hr
    have hlen : len = h.length + 1 := by rw [← hh.length, List.length_cons]
    have hfirst : Writes 2 (rjust 4 (Nat.toDigits 2 m)) 4 m :=
      writes_rjust_toDigits (by decide) hm'.lt
    refine ⟨rjust 4 (Nat.toDigits 2 m) ++ bits, ?_, ?_⟩
    · rw [hexToBits, bind_eq_ok] at hbits
      obtain ⟨bs, hbs, hflat⟩ := hbits
      rw [pure_eq_ok, Except.ok.injEq] at hflat
      rw [hexToBits, List.mapM_cons, hm'.eval (by decide), hbs]
      simp only [ok_bind, pure_bind, List.flatten_cons, hflat]
      rfl
    · have happend := hfirst.append hwrites
      rw [two_pow_four_mul] at happend
      rw [hlen, Nat.mul_succ, add_comm]
      exact happend

/-- `hex_to_bytes` keeps the number. -/
theorem hexToBytes_eq (hh : Writes 16 h len n) : hexToBytes h = .ok (BigEndian.encode ((4 * len + 7) / 8) n) := by
  obtain ⟨bits, hbits, hwrites⟩ := hexToBits_eq hh
  rw [hexToBytes, hbits]
  exact bitsToBytes_eq hwrites

end Conversions

end Sm2

end AuthVideo
