import Mathlib.Data.Nat.Init

/-!
# The primes of the boards

`Prime_number.c`, in unsigned words of 64 bits. A product of two words keeps its low 64 bits. What `rand` returns, call by call,
comes from outside.
-/

namespace AuthVideo

namespace PrimeNumber

/-- The loop of `mod_pow`. -/
def modPowLoop (mod result base exp : UInt64) : UInt64 :=
  if _h : 0 < exp then
    modPowLoop mod (if exp &&& 1 ≠ 0 then result * base % mod else result) (base * base % mod) (exp >>> 1)
  else result
termination_by exp.toNat
decreasing_by
  rw [UInt64.toNat_shiftRight, Nat.shiftRight_eq_div_pow]
  exact Nat.div_lt_self (UInt64.lt_iff_toNat_lt.mp _h) (by decide)

/-- `mod_pow`. -/
def modPow (base exp mod : UInt64) : UInt64 := modPowLoop mod 1 (base % mod) exp

/-- The loop that writes `n - 1` as `2 ^ r * d`, on an even `d` that is not 0. -/
def splitTwos (r d : UInt64) : UInt64 × UInt64 :=
  if _h : d % 2 = 0 ∧ 0 < d then splitTwos (r + 1) (d / 2) else (r, d)
termination_by d.toNat
decreasing_by
  rw [UInt64.toNat_div]
  exact Nat.div_lt_self (UInt64.lt_iff_toNat_lt.mp _h.2) (by decide)

/-- The inner loop of `miller_rabin`: what it leaves in `continueLoop`. -/
def continueLoop (n : UInt64) : Nat → UInt64 → Bool
  | 0, _ => false
  | turns + 1, x =>
    let x := modPow x 2 n
    if x = n - 1 then true else continueLoop n turns x

/-- The loop over the rounds, with the number of the next call of `rand`. -/
def rounds (rand : Nat → Nat) (n r d : UInt64) : Nat → Nat → Nat
  | 0, _ => 1
  | k + 1, call =>
    let a := 2 + UInt64.ofNat (rand call) % (n - 3)
    let x := modPow a d n
    if x = 1 ∨ x = n - 1 then rounds rand n r d k (call + 1)
    else if continueLoop n (r - 1).toNat x then rounds rand n r d k (call + 1)
    else 0

/-- `miller_rabin`. -/
def millerRabin (rand : Nat → Nat) (n : UInt64) (k : Int) : Nat :=
  if n ≤ 1 then 0
  else if n = 2 ∨ n = 3 then 1
  else if n % 2 = 0 then 0
  else
    let (r, d) := splitTwos 0 (n - 1)
    rounds rand n r d k.toNat 0

end PrimeNumber

end AuthVideo
