import AuthVideo.Lemmas.InPlace
import Mathlib.Data.Nat.Digits.Lemmas

/-!
# Theorem 45: the bytes of a decimal text

The pseudonym is the hash of the bytes of a number that `auth_pre` has as a decimal text. It divides the text by 256 in place until
nothing is left of it, and reverses the remainders.
-/

namespace AuthVideo

/-- The bytes of a number, the highest first: at least one, and a zero in front only by itself. -/
structure IsMinimal (n : Nat) (bytes : Bytes) : Prop where
  value : BigEndian.decode bytes = n
  ne_nil : bytes ≠ []
  head : bytes.length = 1 ∨ bytes.head? ≠ some 0

/-- The digits of a number in radix 256 are its bytes. -/
theorem bytesOf_shortest (n : Nat) : bytesOf (shortest n) = (Radix.digits 256 n).reverse := by
  rw [bytesOf, shortest, List.map_map]
  refine (List.map_congr_left fun d hd => ?_).trans (List.map_id _)
  have hlt : d < 256 := by
    rw [List.mem_reverse, Radix.digits] at hd
    split at hd
    · rw [List.mem_singleton.mp hd]
      decide
    · exact Nat.digits_lt_base (by decide) hd
  rw [Function.comp_apply, UInt8.toNat_ofNat', Nat.mod_eq_of_lt hlt, id]

theorem decode_shortest (n : Nat) : BigEndian.decode (shortest n) = n := by
  rw [decode_eq_value, bytesOf_shortest, Radix.value, List.reverse_reverse, Radix.digits]
  split
  · rename_i hzero
    rw [hzero]
    rfl
  · exact Nat.ofDigits_digits 256 n

theorem shortest_ne_nil (n : Nat) : shortest n ≠ [] := by
  intro hnil
  have hbytes := bytesOf_shortest n
  rw [hnil, Radix.digits_eq (by decide), List.reverse_cons] at hbytes
  exact List.append_ne_nil_of_right_ne_nil _ (List.cons_ne_nil _ _) hbytes.symm

/-- The highest of several bytes is not zero. -/
theorem head_shortest (n : Nat) : (shortest n).length = 1 ∨ (shortest n).head? ≠ some 0 := by
  by_cases hzero : n = 0
  · rw [hzero]
    exact .inl rfl
  · refine .inr fun hhead => ?_
    have hfirst : (bytesOf (shortest n)).head? = some 0 := by rw [bytesOf, List.head?_map, hhead]; rfl
    rw [bytesOf_shortest, Radix.digits, if_neg hzero, List.head?_reverse] at hfirst
    have hdigits : Nat.digits 256 n ≠ [] := Nat.digits_ne_nil_iff_ne_zero.mpr hzero
    rw [List.getLast?_eq_some_getLast hdigits, Option.some.injEq] at hfirst
    exact Nat.getLast_digit_ne_zero 256 hzero hfirst

/-- The bytes that the loop gives are the shortest ones. -/
theorem isMinimal_shortest (n : Nat) : IsMinimal n (shortest n) := ⟨decode_shortest n, shortest_ne_nil n, head_shortest n⟩

/-- Theorem 45 (bytes of a decimal text). Let `temp` hold a text of 1 to 127 decimal digits. Whatever stands in `next`, the loop reads
and writes inside the two buffers and ends, and `big_int_bytes` holds the bytes of the number that the text denotes, the highest first
and without zeros in front. -/
theorem decimal_to_bytes {text rest next : Bytes} (hne : text ≠ []) (h : IsNumeral text) (hlength : text.length ≤ 127)
    (hnext : next.length = 128) {fuel : Nat} (hfuel : 54 ≤ fuel) :
    ∃ bytes, decimalToBytes fuel ⟨text ++ 0 :: rest, next⟩ = some bytes ∧ IsMinimal (numberOf text) bytes := by
  have hvalue : numberOf text < 10 ^ (digitsOf text).length := Radix.value_lt (by decide) (digitsOf_lt h)
  have hdigits : (digitsOf text).length ≤ 127 := by rwa [digitsOf, List.length_map]
  have hsize : numberOf text < 256 ^ 53 :=
    Nat.lt_of_lt_of_le hvalue ((Nat.pow_le_pow_right (by decide) hdigits).trans (by decide +kernel))
  have hbytes := Radix.length_digits_le (by decide : 1 < 256) (by decide) hsize
  refine ⟨shortest (numberOf text), ?_, isMinimal_shortest _⟩
  rw [decimalToBytes_eq fuel h (by omega) hnext]
  exact bigIntBytes_eq hne h (by omega) (by omega)

/-- The text of 65537, with zeros in front, over a buffer full of sevens. -/
theorem decimal_to_bytes_65537 :
    ∃ bytes, decimalToBytes 54 ⟨cstr "0065537" ++ 0 :: List.replicate 120 0, List.replicate 128 55⟩ = some bytes ∧
      IsMinimal (numberOf (cstr "0065537")) bytes :=
  decimal_to_bytes (by decide) (by unfold IsNumeral; decide +kernel) (by decide) List.length_replicate (Nat.le_refl 54)

end AuthVideo
