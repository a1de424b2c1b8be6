import Mathlib.Data.List.Induction
import Mathlib.Data.Nat.Bitwise

/-!
# Numbers as bytes, the highest first
-/

namespace BigEndian

/-- The number that a string of bytes holds. -/
def decode (l : List UInt8) : ℕ := l.foldl (fun n b => n * 256 + b.toNat) 0

/-- A string of `k` bytes holds a number below `256 ^ k`. -/
theorem decode_lt (l : List UInt8) : decode l < 256 ^ l.length := by
  unfold decode
  induction l using List.reverseRecOn with
  | nil => exact Nat.one_pos
  | append_singleton l b ih =>
    have hb : b.toNat < 256 := b.toNat_lt
    rw [List.foldl_append, List.length_append, List.length_singleton, Nat.pow_succ, List.foldl_cons, List.foldl_nil]
    omega

/-- The highest byte and those behind it. -/
theorem decode_cons (b : UInt8) (l : List UInt8) : decode (b :: l) = b.toNat * 256 ^ l.length + decode l := by
  unfold decode
  induction l using List.reverseRecOn with
  | nil => simp
  | append_singleton l c ih =>
    rw [← List.cons_append, List.foldl_append, ih, List.foldl_append, List.length_append, List.length_singleton, Nat.pow_succ]
    simp only [List.foldl_cons, List.foldl_nil]
    rw [Nat.add_mul, Nat.mul_assoc, Nat.add_assoc]

/-- A string of bytes holds zero when all its bytes are zero. -/
theorem decode_eq_zero_iff (l : List UInt8) : decode l = 0 ↔ ∀ b ∈ l, b = 0 := by
  induction l with
  | nil => simp [decode]
  | cons b l ih =>
    rw [decode_cons, List.forall_mem_cons, ← ih, ← UInt8.toNat_inj]
    simp

/-- The lowest `k` bytes of a number. -/
def encode : ℕ → ℕ → List UInt8
  | 0, _ => []
  | k + 1, n => encode k (n / 256) ++ [UInt8.ofNat n]

@[simp] theorem encode_zero (n : ℕ) : encode 0 n = [] := rfl

/-- The last byte and those before it. -/
theorem encode_succ (k n : ℕ) : encode (k + 1) n = encode k (n / 256) ++ [UInt8.ofNat n] := rfl

@[simp] theorem length_encode (k n : ℕ) : (encode k n).length = k := by
  induction k generalizing n with
  | zero => rfl
  | succ k ih => rw [encode_succ, List.length_append, ih, List.length_singleton]

/-- The bytes of a number that fits hold it. -/
theorem decode_encode {k n : ℕ} (h : n < 256 ^ k) : decode (encode k n) = n := by
  induction k generalizing n with
  | zero =>
    obtain rfl : n = 0 := by simpa using h
    rfl
  | succ k ih =>
    have hlt : n / 256 < 256 ^ k := Nat.div_lt_of_lt_mul (by rwa [Nat.pow_succ, Nat.mul_comm] at h)
    have htail := ih hlt
    unfold decode at htail ⊢
    rw [encode_succ, List.foldl_append, htail, List.foldl_cons, List.foldl_nil, UInt8.toNat_ofNat']
    omega

/-- A byte is read off the lowest bits. -/
theorem ofNat_mul_add (m n : ℕ) : UInt8.ofNat (m * 256 + n) = UInt8.ofNat n := by
  rw [← UInt8.toNat_inj, UInt8.toNat_ofNat', UInt8.toNat_ofNat', Nat.add_comm]
  exact Nat.add_mul_mod_self_right n m 256

/-- A number put below another one takes the last bytes. -/
theorem encode_append (j : ℕ) {k m n : ℕ} (h : n < 256 ^ k) : encode (j + k) (m * 256 ^ k + n) = encode j m ++ encode k n := by
  induction k generalizing n with
  | zero =>
    obtain rfl : n = 0 := by simpa using h
    rw [encode_zero, List.append_nil, Nat.pow_zero, Nat.mul_one, Nat.add_zero, Nat.add_zero]
  | succ k ih =>
    have hlt : n / 256 < 256 ^ k := Nat.div_lt_of_lt_mul (by rwa [Nat.pow_succ, Nat.mul_comm] at h)
    have hdiv : (m * 256 ^ (k + 1) + n) / 256 = m * 256 ^ k + n / 256 := by
      rw [Nat.pow_succ, ← Nat.mul_assoc]
      omega
    rw [← Nat.add_assoc, encode_succ, hdiv, ih hlt, Nat.pow_succ, ← Nat.mul_assoc, ofNat_mul_add, List.append_assoc]
    rfl

/-- The first bytes of a number are those of its high part. -/
theorem take_encode (j k n : ℕ) : (encode (j + k) n).take j = encode j (n / 256 ^ k) := by
  have hlow : n % 256 ^ k < 256 ^ k := Nat.mod_lt _ (Nat.pow_pos (by decide))
  have hsplit := encode_append j (m := n / 256 ^ k) hlow
  rw [Nat.div_add_mod'] at hsplit
  rw [hsplit, List.take_left' (length_encode j _)]

/-- Numbers that fit are told apart by their bytes. -/
theorem encode_inj {k m n : ℕ} (hm : m < 256 ^ k) (hn : n < 256 ^ k) : encode k m = encode k n ↔ m = n := by
  constructor
  · intro h
    rw [← decode_encode hm, h, decode_encode hn]
  · rintro rfl
    rfl

/-- Numbers put one below the other are their bytes in a row. -/
theorem encode_foldl (k : ℕ) (l : List ℕ) (h : ∀ n ∈ l, n < 256 ^ k) :
    encode (k * l.length) (l.foldl (fun r n => r * 256 ^ k + n) 0) = (l.map (encode k)).flatten := by
  induction l using List.reverseRecOn with
  | nil => rfl
  | append_singleton l n ih =>
    rw [List.foldl_append, List.length_append, List.length_singleton, Nat.mul_succ, List.map_append, List.flatten_append]
    rw [← ih fun n' hn' => h n' (List.mem_append_left _ hn')]
    have hlast := encode_append (k * l.length) (m := l.foldl (fun r n => r * 256 ^ k + n) 0) (h n (by simp))
    simpa using hlast

/-- The bytes of the number of some bytes are these bytes. -/
theorem encode_decode (l : List UInt8) : encode l.length (decode l) = l := by
  induction l with
  | nil => rfl
  | cons b l ih =>
    rw [decode_cons, List.length_cons, Nat.add_comm, encode_append 1 (decode_lt l), ih, encode_succ, UInt8.ofNat_toNat]
    rfl

end BigEndian
