import AuthVideo.Lemmas.Sm2Kdf
import AuthVideo.Lemmas.Sm2Curve

/-!
# Encryption and decryption of the SM2 comparison

What `encry_sm2` and `decry_sm2` return when both reach one point `(x2, y2)`. The ciphertext is the point `(x1, y1)`, the masked
message without its leading zeros, and the hash. The decryption takes the length of the middle part off the length of the whole.
-/

namespace AuthVideo

namespace Sm2

variable {H : Sm3} {PB : ℤ × ℤ} {dB k x1 y1 x2 y2 : ℕ} {M t : Text} {v : ℕ}

/-! ## Raising -/

theorem raiseIf_false {c : Bool} (h : c = false) (text : String) : raiseIf c text = .ok () := by
  rw [raiseIf, h]
  rfl

theorem raiseIf_true {c : Bool} (h : c = true) (text : String) : raiseIf c text = .error (.exception text) := by
  rw [raiseIf, h]
  rfl

theorem error_bind {α β : Type} (e : Error) (f : α → Except Error β) : ((.error e : Except Error α) >>= f) = .error e := rfl

/-! ## Points -/

/-- A field element takes 32 bytes. -/
theorem fieldeToBytes_eq {x : ℕ} (hx : x < 256 ^ 32) : fieldeToBytes x = .ok (BigEndian.encode 32 x) := by
  have hwidth : (Nat.clog 2 fieldPrime + 7) / 8 = 32 := by decide
  rw [fieldeToBytes, hwidth]
  exact intToBytes_eq (by decide) hx

/-- The bytes of a point. -/
def pointBytes (x y : ℕ) : Bytes := 4 :: (BigEndian.encode 32 x ++ BigEndian.encode 32 y)

theorem length_pointBytes (x y : ℕ) : (pointBytes x y).length = 65 := by
  rw [pointBytes, List.length_cons, List.length_append, BigEndian.length_encode, BigEndian.length_encode]

/-- `point_to_bytes`. -/
theorem pointToBytes_eq {x y : ℕ} (hx : x < 256 ^ 32) (hy : y < 256 ^ 32) : pointToBytes (x, y) = .ok (pointBytes x y) := by
  rw [pointToBytes, fieldeToBytes_eq hx, fieldeToBytes_eq hy]
  simp only [ok_bind, pure_eq_ok, List.cons_append, List.nil_append, pointBytes]

/-- `bytes_to_point` undoes it. -/
theorem bytesToPoint_eq {x y : ℕ} (hx : x < 256 ^ 32) (hy : y < 256 ^ 32) : bytesToPoint (pointBytes x y) = .ok (x, y) := by
  have hfirst : Segments.slice (pointBytes x y) 1 (32 + 1) = BigEndian.encode 32 x := by
    rw [Segments.slice, pointBytes, List.drop_one, List.tail_cons, Nat.add_sub_cancel]
    exact List.take_left' (BigEndian.length_encode 32 x)
  have hsecond : Segments.slice (pointBytes x y) (32 + 1) (2 * 32 + 1) = BigEndian.encode 32 y := by
    rw [Segments.slice, pointBytes, List.drop_succ_cons, List.drop_left' (BigEndian.length_encode 32 x)]
    exact List.take_of_length_le (BigEndian.length_encode 32 y).le
  rw [bytesToPoint, length_pointBytes, if_neg (by decide)]
  simp only
  rw [pointBytes, List.headD_cons, if_neg (by decide), ← pointBytes, hfirst, hsecond, bytesToFielde, bytesToFielde, bytesToInt_eq,
    bytesToInt_eq, BigEndian.decode_encode hx, BigEndian.decode_encode hy]

/-- Bits and bytes. -/
theorem bitsToBytes_bytesToBits (B : Bytes) : bitsToBytes (bytesToBits B) = .ok B := by
  rw [bitsToBytes_eq (writes_bytesToBits B), show (8 * B.length + 7) / 8 = B.length by omega, BigEndian.encode_decode]

theorem bitsToHex_bytesToBits (B : Bytes) : bitsToHex (bytesToBits B) = .ok (bytesToHex B) := by
  rw [bitsToHex, bitsToBytes_bytesToBits]
  rfl

/-- `fielde_to_bits`. -/
theorem fieldeToBits_eq {x : ℕ} (hx : x < 256 ^ 32) : fieldeToBits x = .ok (bytesToBits (BigEndian.encode 32 x)) := by
  rw [fieldeToBits, fieldeToBytes_eq hx]
  rfl

/-- `fielde_to_hex`. -/
theorem fieldeToHex_eq {x : ℕ} (hx : x < 256 ^ 32) : fieldeToHex x = .ok (bytesToHex (BigEndian.encode 32 x)) := by
  rw [fieldeToHex, fieldeToBytes_eq hx]
  rfl

/-- The bits that the key is derived from. -/
def sharedBits (x y : ℕ) : Text := bytesToBits (BigEndian.encode 32 x) ++ bytesToBits (BigEndian.encode 32 y)

theorem writes_sharedBits {x y : ℕ} (hx : x < 256 ^ 32) (hy : y < 256 ^ 32) :
    Writes 2 (sharedBits x y) 512 (x * 2 ^ 256 + y) :=
  (writes_bytesToBits_encode hx).append (writes_bytesToBits_encode hy)

/-- The bytes of a message. -/
def messageBytes (M : Text) : Bytes := M.map fun c => UInt8.ofNat c.toNat

theorem length_messageBytes (M : Text) : (messageBytes M).length = M.length := List.length_map _

/-- The byte of a character is the character's number. -/
theorem toNat_ascii {c : Char} (hc : c.toNat < 128) : (UInt8.ofNat c.toNat).toNat = c.toNat := by
  rw [UInt8.toNat_ofNat', Nat.mod_eq_of_lt (Nat.lt_trans hc (by decide))]

/-- `bytes(M, encoding='ascii')`. -/
theorem asciiBytes_eq (hascii : ∀ c ∈ M, c.toNat < 128) : asciiBytes M = .ok (messageBytes M) := by
  rw [asciiBytes, if_pos (List.all_eq_true.mpr fun c hc => decide_eq_true (hascii c hc))]
  rfl

/-- `str` of these bytes is the message. -/
theorem asciiText_messageBytes (hascii : ∀ c ∈ M, c.toNat < 128) : asciiText (messageBytes M) = .ok M := by
  have hback : (messageBytes M).map (fun b => Char.ofNat b.toNat) = M := by
    rw [messageBytes, List.map_map]
    refine (List.map_congr_left fun c hc => ?_).trans (List.map_id M)
    rw [Function.comp_apply, toNat_ascii (hascii c hc), Char.ofNat_toNat, id_eq]
  have hrange : ∀ b ∈ messageBytes M, b.toNat < 128 := by
    intro b hb
    obtain ⟨c, hc, rfl⟩ := List.mem_map.mp hb
    rw [toNat_ascii (hascii c hc)]
    exact hascii c hc
  rw [asciiText, if_pos (List.all_eq_true.mpr fun b hb => decide_eq_true (hrange b hb)), hback]

/-- A text that is returned has one character for each byte. -/
theorem length_of_asciiText {B : Bytes} (h : asciiText B = .ok M) : M.length = B.length := by
  rw [asciiText] at h
  split at h
  · rw [← Except.ok.inj h, List.length_map]
  · cases h

/-! ## Encryption -/

/-- Both sides reach one point. -/
structure Agreed (PB : ℤ × ℤ) (dB k x1 y1 x2 y2 : ℕ) : Prop where
  x1_lt : x1 < 256 ^ 32
  y1_lt : y1 < 256 ^ 32
  x2_lt : x2 < 256 ^ 32
  y2_lt : y2 < 256 ^ 32
  first : multPoint (some getArgs.G) k getArgs.p getArgs.a = .ok (some (x1, y1))
  onCurve : onCurve getArgs (x1, y1) = true
  shared : multPoint (some PB) k getArgs.p getArgs.a = .ok (some (x2, y2))
  recovered : multPoint (some ((x1 : ℤ), (y1 : ℤ))) dB getArgs.p getArgs.a = .ok (some (x2, y2))

/-- The hash of the shared point and a message. -/
def Sm3.seal (H : Sm3) (x y : ℕ) (B : Bytes) : Text := H.hash (BigEndian.encode 32 x ++ B ++ BigEndian.encode 32 y)

theorem writes_seal (H : Sm3) (x y : ℕ) (B : Bytes) : Writes 16 (H.seal x y B) 64 (numeralValue 16 (H.seal x y B)) :=
  ⟨H.isNumeral_hash _, H.length_hash _, rfl⟩

/-- The three parts of a ciphertext. -/
def ciphertext (x y : ℕ) (C2 C3 : Text) : Text := bytesToHex (pointBytes x y) ++ C2 ++ C3

/-- The middle part of a ciphertext: what `hex` writes of the message under the mask. -/
def maskedText (M : Text) (v : ℕ) : Text := Nat.toDigits 16 (BigEndian.decode (messageBytes M) ^^^ v)

theorem writes_maskedText (M : Text) (v : ℕ) :
    Writes 16 (maskedText M v) (maskedText M v).length (BigEndian.decode (messageBytes M) ^^^ v) :=
  writes_toDigits 16 _

/-- `encry_sm2`, from the derivation of the key on. -/
theorem encrySm2_eq (h : Agreed PB dB k x1 y1 x2 y2) (hM : M ≠ []) (hascii : ∀ c ∈ M, c.toNat < 128) :
    H.encrySm2 getArgs PB M k = do
      let t ← H.kdf (sharedBits x2 y2) ((8 * M.length : ℕ) : ℤ)
      let v ← evalNumeral 2 t
      raiseIf (v = 0) "KDF返回了全零串，请检查KDF算法！"
      return ciphertext x1 y1 (maskedText M v) (H.seal x2 y2 (messageBytes M)) := by
  have hlen : 0 < M.length := List.length_pos_iff.mpr hM
  have hhex := writes_bytesToHex (messageBytes M)
  rw [length_messageBytes] at hhex
  have hklen : 4 * (bytesToHex (messageBytes M)).length = 8 * M.length := by
    rw [hhex.length]
    omega
  rw [Sm3.encrySm2, asciiBytes_eq hascii, ok_bind, h.first, ok_bind, coordinates, ok_bind, pointToBits,
    pointToBytes_eq h.x1_lt h.y1_lt]
  simp only [ok_bind, pure_bind]
  rw [show getArgs.h = 1 from rfl, multPoint_one, ok_bind, raiseIf_false (decide_eq_false (Option.some_ne_none PB)), ok_bind,
    h.shared, ok_bind, coordinates, ok_bind, fieldeToBits_eq h.x2_lt, ok_bind, fieldeToBits_eq h.y2_lt, ok_bind, hklen, sharedBits]
  refine bind_congr fun t => ?_
  cases evalNumeral 2 t with
  | error e => rfl
  | ok v =>
    rw [ok_bind, ok_bind]
    refine bind_congr fun _ => ?_
    rw [hhex.eval (by omega), ok_bind, ok_bind, bitsToBytes_bytesToBits, ok_bind, bitsToBytes_bytesToBits, ok_bind,
      bitsToHex_bytesToBits, ok_bind]
    rfl

/-! ## Decryption -/

/-- A text of an even number of digits behind some bytes. -/
theorem hexToBytes_append (B : Bytes) {s : Text} {m n : ℕ} (hs : Writes 16 s (2 * m) n) :
    hexToBytes (bytesToHex B ++ s) = .ok (B ++ BigEndian.encode m n) := by
  have hn := hs.lt
  rw [sixteen_pow_two_mul] at hn
  rw [hexToBytes_eq ((writes_bytesToHex B).append hs), show (4 * (2 * B.length + 2 * m) + 7) / 8 = B.length + m by omega,
    sixteen_pow_two_mul, BigEndian.encode_append B.length hn, BigEndian.encode_decode]

/-- A text of an odd number of digits with a leading zero. -/
theorem hexToBytes_cons_zero {s : Text} {m n : ℕ} (hs : Writes 16 s (2 * m) n) :
    hexToBytes ('0' :: s) = .ok (0 :: BigEndian.encode m n) := by
  have hn := hs.lt
  rw [sixteen_pow_two_mul] at hn
  have hcons := (writes_singleton (b := 16) (c := '0') (by decide)).append hs
  rw [List.singleton_append, show digitValue '0' = 0 from rfl, zero_mul, zero_add] at hcons
  have happend := BigEndian.encode_append 1 (m := 0) hn
  rw [zero_mul, zero_add] at happend
  rw [hexToBytes_eq hcons, show (4 * (1 + 2 * m) + 7) / 8 = 1 + m by omega, happend]
  rfl

/-- `bytes_to_point` on an odd number of bytes that do not start with 4. -/
theorem bytesToPoint_error {B : Bytes} (hlen : B.length % 2 ≠ 0) (hhead : B.headD 0 ≠ 4) :
    bytesToPoint B = .error (.exception "无法实现字节串到点的转换，请检查PC是否为b'04'！") := by
  rw [bytesToPoint, if_neg hlen]
  exact if_pos hhead

/-- A text of an odd number of digits behind the byte 4 is read with a byte 0 at its start. -/
theorem hexToBytes_odd (B : Bytes) {s : Text} {m n : ℕ} (hs : Writes 16 s (2 * m + 1) n) :
    ∃ bytes, hexToBytes (bytesToHex (4 :: B) ++ s) = .ok (0 :: bytes) ∧ bytes.length = B.length + m + 1 := by
  have hhead : bytesToHex (4 :: B) ++ s = '0' :: (['4'] ++ bytesToHex B ++ s) := rfl
  have hrest := ((writes_singleton (b := 16) (c := '4') (by decide)).append (writes_bytesToHex B)).append hs
  rw [show 1 + 2 * B.length + (2 * m + 1) = 2 * (B.length + m + 1) by omega] at hrest
  rw [hhead, hexToBytes_cons_zero hrest]
  exact ⟨_, rfl, BigEndian.length_encode _ _⟩

theorem clog_field : Nat.clog 256 getArgs.p = 32 := by decide

/-- Where the middle part has an odd length no point is read. -/
theorem decrySm2_odd {C2 C3 : Text} {m c s : ℕ} (hC2 : Writes 16 C2 (2 * m + 1) c) (hC3 : Writes 16 C3 64 s) :
    H.decrySm2 getArgs dB (ciphertext x1 y1 C2 C3) = .error (.exception "无法实现字节串到点的转换，请检查PC是否为b'04'！") := by
  have hrest := hC2.append hC3
  rw [show 2 * m + 1 + 64 = 2 * (m + 32) + 1 by omega] at hrest
  obtain ⟨bytes, hbytes, hlen⟩ := hexToBytes_odd (BigEndian.encode 32 x1 ++ BigEndian.encode 32 y1) hrest
  rw [← pointBytes, ← List.append_assoc, ← ciphertext] at hbytes
  rw [List.length_append, BigEndian.length_encode, BigEndian.length_encode] at hlen
  have hpoint := bytesToPoint_error (B := (0 :: bytes).take (2 * 32 + 1))
    (by rw [List.length_take, List.length_cons, Nat.min_eq_left (by omega)]; decide)
    (by rw [List.take_succ_cons, List.headD_cons]; decide)
  rw [Sm3.decrySm2, clog_field, hbytes, ok_bind, hpoint, error_bind]

/-- A mask of some digits leaves no more digits. -/
theorem xor_lt_sixteen_pow {V v len : ℕ} (hV : V < 16 ^ len) (hv : v < 16 ^ len) : V ^^^ v < 16 ^ len := by
  rw [← two_pow_four_mul] at hV hv ⊢
  exact Nat.xor_lt_two_pow hV hv

/-- The bits of a field element, off its digits. -/
theorem hexToBits_fielde {x : ℕ} (hx : x < 256 ^ 32) :
    ∃ bits, hexToBits (bytesToHex (BigEndian.encode 32 x)) = .ok bits ∧ Writes 2 bits 256 x :=
  hexToBits_eq (writes_bytesToHex_encode hx)

/-- Three fields behind one another are their bytes. -/
theorem bitsToBytes_append {s t u : Text} {x c y m : ℕ} (hs : Writes 2 s 256 x) (ht : Writes 2 t (8 * m) c) (hu : Writes 2 u 256 y) :
    bitsToBytes (s ++ t ++ u) = .ok (BigEndian.encode 32 x ++ BigEndian.encode m c ++ BigEndian.encode 32 y) := by
  have hx := hs.lt
  have hc := ht.lt
  have hy := hu.lt
  rw [two_pow_eight_mul] at hc
  rw [show 256 = 8 * 32 from rfl, two_pow_eight_mul] at hx hy
  rw [bitsToBytes_eq ((hs.append ht).append hu), show (256 + 8 * m + 256 + 7) / 8 = 32 + m + 32 by omega, show 256 = 8 * 32 from rfl,
    two_pow_eight_mul, two_pow_eight_mul, BigEndian.encode_append _ hy, BigEndian.encode_append _ hc]

/-- The parts come back off the lengths. -/
theorem ciphertext_parts (x y : ℕ) {C2 C3 : Text} {len : ℕ} (hC2 : C2.length = len) (hC3 : C3.length = 64) :
    (ciphertext x y C2 C3).length = 130 + len + 64 ∧
      Segments.slice (ciphertext x y C2 C3) 130 ((ciphertext x y C2 C3).length - 64) = C2 ∧
      (ciphertext x y C2 C3).drop ((ciphertext x y C2 C3).length - 64) = C3 := by
  have hhead : (bytesToHex (pointBytes x y)).length = 130 := by rw [(writes_bytesToHex _).length, length_pointBytes]
  have hlength : (ciphertext x y C2 C3).length = 130 + len + 64 := by
    rw [ciphertext, List.length_append, List.length_append, hhead, hC2, hC3]
  rw [hlength, Nat.add_sub_cancel]
  refine ⟨rfl, ?_, ?_⟩
  · rw [ciphertext, List.append_assoc, ← hhead, ← hC2]
    exact Segments.slice_append_left _ C2 C3
  · rw [ciphertext]
    exact List.drop_left' (by rw [List.length_append, hhead, hC2])

/-- `decry_sm2` of a ciphertext whose middle part has an even length, from the key on. -/
theorem decrySm2_even (h : Agreed PB dB k x1 y1 x2 y2) {C2 C3 : Text} {m c s : ℕ} (hm : 0 < m) (hC2 : Writes 16 C2 (2 * m) c)
    (hC3 : Writes 16 C3 64 s) (ht : H.kdf (sharedBits x2 y2) ((8 * m : ℕ) : ℤ) = .ok t) (hw : Writes 2 t (8 * m) v) :
    H.decrySm2 getArgs dB (ciphertext x1 y1 C2 C3) = (do
      raiseIf (v = 0) "在解密算法B4中，得到的t是全0串！"
      raiseIf (H.seal x2 y2 (BigEndian.encode m (c ^^^ v)) ≠ C3) "在解密算法B6中，计算的u与C3不同！"
      asciiText (BigEndian.encode m (c ^^^ v))) := by
  have hrest := hC2.append hC3
  rw [show 2 * m + 64 = 2 * (m + 32) by omega] at hrest
  have hbytes := hexToBytes_append (pointBytes x1 y1) hrest
  rw [← List.append_assoc, ← ciphertext] at hbytes
  obtain ⟨x2Bits, hx2, hwx⟩ := hexToBits_fielde h.x2_lt
  obtain ⟨y2Bits, hy2, hwy⟩ := hexToBits_fielde h.y2_lt
  have hkdf : H.kdf (x2Bits ++ y2Bits) ((8 * m : ℕ) : ℤ) = .ok t := by
    rw [← ht]
    exact kdf_congr (hwx.append hwy) (writes_sharedBits h.x2_lt h.y2_lt) _
  have htHex : bitsToHex t = .ok (bytesToHex (BigEndian.encode m v)) := by
    rw [bitsToHex, bitsToBytes_eq hw, show (8 * m + 7) / 8 = m by omega]
    rfl
  obtain ⟨hlength, hmiddle, hlast⟩ := ciphertext_parts x1 y1 hC2.length hC3.length
  have hL2 : ((ciphertext x1 y1 C2 C3).length : ℤ) - (((2 * 32 + 1) * 2 : ℕ) : ℤ) - ((64 : ℕ) : ℤ) = ((2 * m : ℕ) : ℤ) := by
    rw [hlength]
    push_cast
    ring
  have hklen : ((2 * m : ℕ) : ℤ) * 4 = ((8 * m : ℕ) : ℤ) := by
    push_cast
    ring
  -- The message that comes out, as digits and as bits.
  have hv := hw.lt
  rw [two_pow_eight_mul] at hv
  have hmask := writes_bytesToHex_encode hv
  have hM1 := writes_rjust_toDigits (by omega) (xor_lt_sixteen_pow hC2.lt hmask.lt)
  obtain ⟨M1Bits, hbits, hM1Bits⟩ := hexToBits_eq hM1
  rw [show 4 * (2 * m) = 8 * m by omega] at hM1Bits
  rw [Sm3.decrySm2, clog_field, hbytes, ok_bind, List.take_left' (length_pointBytes x1 y1), bytesToPoint_eq h.x1_lt h.y1_lt, ok_bind,
    raiseIf_false (by rw [h.onCurve]; rfl), ok_bind, fieldeToHex_eq h.x1_lt, ok_bind, fieldeToHex_eq h.y1_lt, ok_bind,
    show getArgs.h = 1 from rfl, multPoint_one, ok_bind, raiseIf_false (decide_eq_false (Option.some_ne_none _)), ok_bind, coordinates,
    ok_bind]
  dsimp only
  rw [fieldeToHex_eq h.x1_lt, ok_bind, fieldeToHex_eq h.y1_lt, ok_bind, h.recovered, ok_bind, coordinates, ok_bind]
  dsimp only
  rw [fieldeToHex_eq h.x2_lt, ok_bind, fieldeToHex_eq h.y2_lt, ok_bind, hx2, ok_bind, hy2, ok_bind, hL2,
    hklen, hkdf, ok_bind, hw.eval (by omega), ok_bind]
  refine bind_congr fun _ => ?_
  rw [htHex, ok_bind, hmiddle, hC2.eval (by omega), ok_bind, hmask.eval (by omega), ok_bind, Int.toNat_natCast, hbits, ok_bind,
    bitsToBytes_append hwx hM1Bits hwy, ok_bind, hlast, hexToBytes_eq hM1, show (4 * (2 * m) + 7) / 8 = m by omega]
  rfl

/-! ## The round trip -/

/-- A mask of some digits leaves no more digits, and all of them where the leading digits of the two numbers differ. -/
theorem length_toDigits_xor {V v L : ℕ} (hV : V < 16 ^ (L + 1)) (hv : v < 16 ^ (L + 1)) (hL : 0 < L) :
    (Nat.toDigits 16 (V ^^^ v)).length ≤ L + 1 ∧
      ((Nat.toDigits 16 (V ^^^ v)).length = L + 1 ↔ v / 16 ^ L ≠ V / 16 ^ L) := by
  have hle : (Nat.toDigits 16 (V ^^^ v)).length ≤ L + 1 := by
    rw [Nat.length_toDigits_le_iff (by decide) (by omega)]
    exact xor_lt_sixteen_pow hV hv
  have hshort : (Nat.toDigits 16 (V ^^^ v)).length ≤ L ↔ v / 16 ^ L = V / 16 ^ L := by
    rw [Nat.length_toDigits_le_iff (by decide) hL, ← Nat.div_eq_zero_iff_lt (by positivity), ← two_pow_four_mul,
      Nat.xor_div_two_pow, Nat.xor_eq_zero_iff, eq_comm]
  refine ⟨hle, ?_⟩
  rw [ne_eq, ← hshort]
  omega

/-- The first digit of a message. -/
theorem decode_messageBytes_div (hM : M ≠ []) (hascii : ∀ c ∈ M, c.toNat < 128) :
    BigEndian.decode (messageBytes M) / 16 ^ (2 * M.length - 1) = (M.head hM).toNat / 16 := by
  obtain _ | ⟨c, M⟩ := M
  · exact absurd rfl hM
  have hc := toNat_ascii (hascii c List.mem_cons_self)
  have hrest := BigEndian.decode_lt (messageBytes M)
  have hpow : 16 ^ (2 * (c :: M).length - 1) = 256 ^ (messageBytes M).length * 16 := by
    rw [List.length_cons, length_messageBytes, ← sixteen_pow_two_mul, ← pow_succ]
    congr 1
  rw [hpow, ← Nat.div_div_eq_div_mul, messageBytes, List.map_cons, BigEndian.decode_cons, hc, ← messageBytes, mul_comm c.toNat,
    Nat.mul_add_div (by positivity), Nat.div_eq_of_lt hrest, add_zero, List.head_cons]

/-- The masked message has all its digits when the first digits of the message and of the key differ. -/
theorem length_masked (hM : M ≠ []) (hascii : ∀ c ∈ M, c.toNat < 128) (hw : Writes 2 t (8 * M.length) v) :
    (maskedText M v).length ≤ 2 * M.length ∧
      ((maskedText M v).length = 2 * M.length ↔ numeralValue 2 (t.take 4) ≠ (M.head hM).toNat / 16) := by
  have hlen : 0 < M.length := List.length_pos_iff.mpr hM
  have hV := BigEndian.decode_lt (messageBytes M)
  have hv := hw.lt
  have hdigits : 2 * M.length - 1 + 1 = 2 * M.length := by omega
  rw [length_messageBytes, ← sixteen_pow_two_mul, ← hdigits] at hV
  rw [two_pow_eight_mul, ← sixteen_pow_two_mul, ← hdigits] at hv
  have hmask := length_toDigits_xor hV hv (by omega)
  have hfour : numeralValue 2 (t.take 4) = v / 16 ^ (2 * M.length - 1) := by
    rw [show 8 * M.length = 4 + 4 * (2 * M.length - 1) by omega] at hw
    rw [hw.value_take, two_pow_four_mul]
  rwa [hdigits, decode_messageBytes_div hM hascii, ← hfour] at hmask

/-- A message that comes back has half as many characters as the middle part has digits. -/
theorem length_of_decrySm2 (h : Agreed PB dB k x1 y1 x2 y2) {C2 C3 : Text} {l c s : ℕ} (hl : 0 < l) (hC2 : Writes 16 C2 l c)
    (hC3 : Writes 16 C3 64 s) (hlimit : 4 * l < (2 ^ 32 - 1) * 256)
    (hresult : H.decrySm2 getArgs dB (ciphertext x1 y1 C2 C3) = .ok M) : l = 2 * M.length := by
  rcases Nat.even_or_odd' l with ⟨m, rfl | rfl⟩
  · have hm : 0 < m := by omega
    have hm8 : 8 * m < (2 ^ 32 - 1) * 256 := by omega
    obtain ⟨t, v, ht, hw, -⟩ := kdf_eq (H := H) (writes_sharedBits h.x2_lt h.y2_lt) (show 0 < 8 * m by omega) hm8
    rw [decrySm2_even h hm hC2 hC3 ht hw, bind_eq_ok] at hresult
    obtain ⟨_, _, hrest⟩ := hresult
    rw [bind_eq_ok] at hrest
    obtain ⟨_, _, hlast⟩ := hrest
    rw [length_of_asciiText hlast, BigEndian.length_encode]
  · rw [decrySm2_odd hC2 hC3] at hresult
    cases hresult

/-- A masked message that lost no digit is decrypted. -/
theorem decrySm2_full (h : Agreed PB dB k x1 y1 x2 y2) (hM : M ≠ []) (hascii : ∀ c ∈ M, c.toNat < 128)
    (ht : H.kdf (sharedBits x2 y2) ((8 * M.length : ℕ) : ℤ) = .ok t) (hw : Writes 2 t (8 * M.length) v) (hv : v ≠ 0)
    (hfull : (maskedText M v).length = 2 * M.length) :
    H.decrySm2 getArgs dB (ciphertext x1 y1 (maskedText M v) (H.seal x2 y2 (messageBytes M))) = .ok M := by
  have hC2 := writes_maskedText M v
  rw [hfull] at hC2
  have hback : BigEndian.encode M.length (BigEndian.decode (messageBytes M) ^^^ v ^^^ v) = messageBytes M := by
    rw [Nat.xor_assoc, Nat.xor_self, Nat.xor_zero, ← length_messageBytes, BigEndian.encode_decode]
  rw [decrySm2_even h (List.length_pos_iff.mpr hM) hC2 (writes_seal H x2 y2 _) ht hw, hback,
    raiseIf_false (decide_eq_false hv), ok_bind, raiseIf_false (by simp), ok_bind, asciiText_messageBytes hascii]

/-- `encry_sm2` of a message that is not too long for the key derivation. -/
theorem encrySm2_of_limit (h : Agreed PB dB k x1 y1 x2 y2) (hM : M ≠ []) (hascii : ∀ c ∈ M, c.toNat < 128)
    (hlimit : 8 * M.length < (2 ^ 32 - 1) * 256) : ∃ t v,
      H.kdf (sharedBits x2 y2) ((8 * M.length : ℕ) : ℤ) = .ok t ∧ Writes 2 t (8 * M.length) v ∧
      numeralValue 2 (t.take 4) = H.firstDigit 512 (x2 * 2 ^ 256 + y2) ∧
      (v = 0 → H.encrySm2 getArgs PB M k = .error (.exception "KDF返回了全零串，请检查KDF算法！")) ∧
      (v ≠ 0 → H.encrySm2 getArgs PB M k = .ok (ciphertext x1 y1 (maskedText M v) (H.seal x2 y2 (messageBytes M)))) := by
  have hlen : 0 < M.length := List.length_pos_iff.mpr hM
  obtain ⟨t, v, ht, hw, hfirst⟩ := kdf_eq (H := H) (writes_sharedBits h.x2_lt h.y2_lt) (show 0 < 8 * M.length by omega) hlimit
  refine ⟨t, v, ht, hw, hfirst (by omega), ?_, ?_⟩
  · intro hv
    rw [encrySm2_eq h hM hascii, ht, ok_bind, hw.eval (by omega), ok_bind, raiseIf_true (decide_eq_true hv), error_bind]
  · intro hv
    rw [encrySm2_eq h hM hascii, ht, ok_bind, hw.eval (by omega), ok_bind, raiseIf_false (decide_eq_false hv), ok_bind, pure_eq_ok]

/-- `encry_sm2` of a message that is too long. -/
theorem encrySm2_too_long (h : Agreed PB dB k x1 y1 x2 y2) (hM : M ≠ []) (hascii : ∀ c ∈ M, c.toNat < 128)
    (hlimit : (2 ^ 32 - 1) * 256 ≤ 8 * M.length) :
    H.encrySm2 getArgs PB M k = .error (.exception "密钥派生函数KDF出错，请检查klen的大小！") := by
  have herror : H.kdf (sharedBits x2 y2) ((8 * M.length : ℕ) : ℤ) = .error (.exception "密钥派生函数KDF出错，请检查klen的大小！") := by
    refine kdf_too_long ?_
    norm_num at hlimit ⊢
    exact_mod_cast hlimit
  rw [encrySm2_eq h hM hascii, herror, error_bind]

/-- The message comes back exactly when the key can be derived and the first digits of the message and of the key differ. -/
theorem round_trip_iff (h : Agreed PB dB k x1 y1 x2 y2) (hM : M ≠ []) (hascii : ∀ c ∈ M, c.toNat < 128)
    (hkey : H.encrySm2 getArgs PB M k ≠ .error (.exception "KDF返回了全零串，请检查KDF算法！")) :
    (H.encrySm2 getArgs PB M k >>= H.decrySm2 getArgs dB) = .ok M ↔
      8 * M.length < (2 ^ 32 - 1) * 256 ∧ H.firstDigit 512 (x2 * 2 ^ 256 + y2) ≠ (M.head hM).toNat / 16 := by
  by_cases hlimit : 8 * M.length < (2 ^ 32 - 1) * 256
  · obtain ⟨t, v, ht, hw, hfirst, hzero, hcipher⟩ := encrySm2_of_limit (H := H) h hM hascii hlimit
    have hv : v ≠ 0 := fun hv => hkey (hzero hv)
    obtain ⟨hle, hfull⟩ := length_masked hM hascii hw
    rw [hcipher hv, ok_bind, and_iff_right hlimit, ← hfirst, ← hfull]
    constructor
    · intro hresult
      have hpos : 0 < (maskedText M v).length := Nat.length_toDigits_pos
      exact length_of_decrySm2 h hpos (writes_maskedText M v) (writes_seal H x2 y2 _) (by omega) hresult
    · exact decrySm2_full h hM hascii ht hw hv
  · rw [encrySm2_too_long h hM hascii (not_lt.mp hlimit), error_bind]
    exact ⟨nofun, fun hcond => absurd hcond.1 hlimit⟩

/-- A key whose first digit is not 0 is not zero. -/
theorem encrySm2_of_digit (h : Agreed PB dB k x1 y1 x2 y2) (hM : M ≠ []) (hascii : ∀ c ∈ M, c.toNat < 128)
    (hlimit : 8 * M.length < (2 ^ 32 - 1) * 256) (hdigit : H.firstDigit 512 (x2 * 2 ^ 256 + y2) ≠ 0) : ∃ t v,
      Writes 2 t (8 * M.length) v ∧ numeralValue 2 (t.take 4) = H.firstDigit 512 (x2 * 2 ^ 256 + y2) ∧
      H.encrySm2 getArgs PB M k = .ok (ciphertext x1 y1 (maskedText M v) (H.seal x2 y2 (messageBytes M))) := by
  have hlen : 0 < M.length := List.length_pos_iff.mpr hM
  obtain ⟨t, v, -, hw, hfirst, -, hcipher⟩ := encrySm2_of_limit (H := H) h hM hascii hlimit
  refine ⟨t, v, hw, hfirst, hcipher ?_⟩
  rintro rfl
  have hfour : numeralValue 2 (t.take 4) = 0 := by
    rw [show 8 * M.length = 4 + (8 * M.length - 4) by omega] at hw
    rw [hw.value_take, Nat.zero_div]
  rw [hfirst] at hfour
  exact hdigit hfour

/-- A message of one character and a key with the same first digit leave one digit, and the ciphertext is not read. -/
theorem round_trip_character (h : Agreed PB dB k x1 y1 x2 y2) {c : Char} (hascii : c.toNat < 128)
    (hdigit : H.firstDigit 512 (x2 * 2 ^ 256 + y2) ≠ 0) (hsame : H.firstDigit 512 (x2 * 2 ^ 256 + y2) = c.toNat / 16) :
    ∃ C, H.encrySm2 getArgs PB [c] k = .ok C ∧
      H.decrySm2 getArgs dB C = .error (.exception "无法实现字节串到点的转换，请检查PC是否为b'04'！") := by
  have hascii' : ∀ d ∈ [c], d.toNat < 128 := fun d hd => by rwa [List.mem_singleton.mp hd]
  obtain ⟨t, v, hw, hfirst, hcipher⟩ := encrySm2_of_digit (H := H) h (List.cons_ne_nil c []) hascii' (by simp) hdigit
  refine ⟨_, hcipher, ?_⟩
  obtain ⟨hle, hfull⟩ := length_masked (List.cons_ne_nil c []) hascii' hw
  have hC2 := writes_maskedText [c] v
  have hpos : 0 < (maskedText [c] v).length := Nat.length_toDigits_pos
  have hne : (maskedText [c] v).length ≠ 2 := by
    intro htwo
    exact hfull.mp htwo (hfirst.trans hsame)
  rw [List.length_singleton] at hle
  rw [show (maskedText [c] v).length = 2 * 0 + 1 by omega] at hC2
  exact decrySm2_odd hC2 (writes_seal H x2 y2 _)

end Sm2

end AuthVideo
