import AuthVideo.BigNum

/-!
# Modular arithmetic of the protocol

`uint256_addmod` and `uint256_mulmod` of `protocol.c`. They write the sum and the product in words as `big_add` and `big_mul` do,
and share the comparison with the modulus and the subtraction of it.
-/

namespace AuthVideo

/-- The comparison loops, whose `ge` stays 0 where the numbers are equal. -/
def ge (a mod : Uint256) : Bool := bigCmp a mod = 1

/-- The subtraction loops, with the borrow that comes in. -/
def modSubLoop : UInt64 → List UInt32 → List UInt32 → List UInt32
  | borrow, a :: as, m :: mod =>
    let temp := a.toUInt64 - m.toUInt64 - borrow
    temp.toUInt32 :: modSubLoop ((temp >>> 63) &&& 1) as mod
  | _, _, _ => []

theorem length_modSubLoop (borrow : UInt64) {as mod : List UInt32} (h : as.length = mod.length) :
    (modSubLoop borrow as mod).length = as.length := by
  induction as generalizing mod borrow with
  | nil => rfl
  | cons a as ih =>
    cases mod with
    | nil => cases h
    | cons m mod => exact congrArg (· + 1) (ih _ (Nat.succ.inj h))

/-- The modulus is subtracted once where `ge` says so. -/
def reduceOnce (a mod : Uint256) : Uint256 :=
  if ge a mod then
    ⟨modSubLoop 0 a.words mod.words, by
      rw [length_modSubLoop 0 (a.length_words.trans mod.length_words.symm), a.length_words]⟩
  else a

/-- `uint256_addmod`. The carry out of the highest word is dropped. -/
def uint256Addmod (a b mod : Uint256) : Uint256 := reduceOnce (bigAdd a b).1 mod

/-- The shift of `rem` to the left, which drops its highest bit. -/
def shl1 (rem : Uint256) : Uint256 :=
  ⟨(big512ShlLoop 1 0 rem.words).1, by rw [length_big512ShlLoop, rem.length_words]⟩

/-- A turn of the division loop of `uint256_mulmod`, for the bit of the product at `i`. -/
def mulmodTurn (prod : Uint512) (mod rem : Uint256) (i : Nat) : Uint256 :=
  let rem := shl1 rem
  let bit := (prod.words.getD (i / 32) 0 >>> .ofNat (i % 32)) &&& 1
  let rem := rem.setLow (rem.low ||| bit)
  reduceOnce rem mod

/-- `uint256_mulmod`. -/
def uint256Mulmod (a b mod : Uint256) : Uint256 :=
  (List.range 512).reverse.foldl (mulmodTurn (bigMul a b) mod) .zero

end AuthVideo
