import AuthVideo.Lib.Loop
import AuthVideo.Lib.Words

/-!
# The integers of the boards

`ChebyShev.c` up to its division: integers of 256 and of 512 bits in little-endian words of 32, with carries in 64. An array that
a function fills from its low end to its high end is a recursion on the list of its words; one that it walks through from the
high end down is a recursion on the reversed list.
-/

namespace AuthVideo

/-- An array of `n` words. -/
structure Limbs (n : Nat) where
  words : List UInt32
  length_words : words.length = n
  deriving DecidableEq

/-- `uint256_t`. -/
abbrev Uint256 := Limbs 8

/-- `uint512_t`. -/
abbrev Uint512 := Limbs 16

namespace Limbs

variable {n : Nat}

/-- The number that an array holds. -/
def value (a : Limbs n) : Nat := Words.value a.words

/-- `memset` to zero. -/
def zero : Limbs n := ⟨List.replicate n 0, List.length_replicate⟩

/-- The test of every word against zero. -/
def IsZero (a : Limbs n) : Prop := ∀ w ∈ a.words, w = 0

instance (a : Limbs n) : Decidable a.IsZero := List.decidableBAll _ a.words

/-- The lowest word. -/
def low (a : Limbs n) : UInt32 := a.words.headD 0

/-- The array with another lowest word. -/
def setLow (a : Limbs n) (w : UInt32) : Limbs n := ⟨a.words.set 0 w, by rw [List.length_set, a.length_words]⟩

end Limbs

/-- The low 256 bits, as `memcpy` of 8 words takes them. -/
def Limbs.low256 (a : Uint512) : Uint256 := ⟨a.words.take 8, by rw [List.length_take, a.length_words]; rfl⟩

/-- `set_uint256`. -/
def setUint256 (limb7 limb6 limb5 limb4 limb3 limb2 limb1 limb0 : UInt32) : Uint256 :=
  ⟨[limb0, limb1, limb2, limb3, limb4, limb5, limb6, limb7], rfl⟩

/-! ## Addition and subtraction -/

/-- The loop of `big_add`, with the carry that comes in. -/
def bigAddLoop : UInt64 → List UInt32 → List UInt32 → List UInt32 × UInt64
  | carry, a :: as, b :: bs =>
    let sum := a.toUInt64 + b.toUInt64 + carry
    let (res, carry) := bigAddLoop (sum >>> 32) as bs
    (sum.toUInt32 :: res, carry)
  | carry, _, _ => ([], carry)

theorem length_bigAddLoop (carry : UInt64) {as bs : List UInt32} (h : as.length = bs.length) :
    (bigAddLoop carry as bs).1.length = as.length := by
  induction as generalizing bs carry with
  | nil => rfl
  | cons a as ih =>
    cases bs with
    | nil => cases h
    | cons b bs => exact congrArg (· + 1) (ih _ (Nat.succ.inj h))

/-- `big_add`: the sum and the carry. -/
def bigAdd (a b : Uint256) : Uint256 × UInt32 :=
  let out := bigAddLoop 0 a.words b.words
  (⟨out.1, by rw [length_bigAddLoop 0 (a.length_words.trans b.length_words.symm), a.length_words]⟩, out.2.toUInt32)

/-- The loop of `big_sub` and `big_sub512`, with the borrow that comes in. -/
def bigSubLoop : UInt64 → List UInt32 → List UInt32 → List UInt32 × UInt64
  | borrow, a :: as, b :: bs =>
    let ai := a.toUInt64
    let bi := b.toUInt64 + borrow
    if ai ≥ bi then
      let (res, borrow) := bigSubLoop 0 as bs
      ((ai - bi).toUInt32 :: res, borrow)
    else
      let (res, borrow) := bigSubLoop 1 as bs
      ((((1 : UInt64) <<< 32) + ai - bi).toUInt32 :: res, borrow)
  | borrow, _, _ => ([], borrow)

theorem length_bigSubLoop (borrow : UInt64) {as bs : List UInt32} (h : as.length = bs.length) :
    (bigSubLoop borrow as bs).1.length = as.length := by
  induction as generalizing bs borrow with
  | nil => rfl
  | cons a as ih =>
    cases bs with
    | nil => cases h
    | cons b bs =>
      simp only [bigSubLoop]
      split <;> exact congrArg (· + 1) (ih _ (Nat.succ.inj h))

/-- The two subtractions, which differ in the number of words: the difference and the borrow. -/
def subWords {n : Nat} (a b : Limbs n) : Limbs n × UInt32 :=
  let out := bigSubLoop 0 a.words b.words
  (⟨out.1, by rw [length_bigSubLoop 0 (a.length_words.trans b.length_words.symm), a.length_words]⟩, out.2.toUInt32)

/-- `big_sub`. -/
def bigSub (a b : Uint256) : Uint256 × UInt32 := subWords a b

/-- `big_sub512`. -/
def bigSub512 (a b : Uint512) : Uint512 × UInt32 := subWords a b

/-! ## Comparison -/

/-- The loop of `big_cmp` and `big_cmp512`, from the highest word down. -/
def bigCmpLoop : List UInt32 → List UInt32 → Int
  | a :: as, b :: bs => if a > b then 1 else if a < b then -1 else bigCmpLoop as bs
  | _, _ => 0

/-- `big_cmp`. -/
def bigCmp (a b : Uint256) : Int := bigCmpLoop a.words.reverse b.words.reverse

/-- `big_cmp512`. -/
def bigCmp512 (a b : Uint512) : Int := bigCmpLoop a.words.reverse b.words.reverse

/-! ## Shifts -/

/-- The loop of `big_shr1`, from the highest word down. -/
def bigShr1Loop : UInt64 → List UInt32 → List UInt32
  | _, [] => []
  | carry, a :: as =>
    let temp := (carry <<< 32) ||| a.toUInt64
    (temp >>> 1).toUInt32 :: bigShr1Loop (temp &&& 1) as

@[simp] theorem length_bigShr1Loop (carry : UInt64) (as : List UInt32) : (bigShr1Loop carry as).length = as.length := by
  induction as generalizing carry with
  | nil => rfl
  | cons a as ih => exact congrArg (· + 1) (ih _)

/-- `big_shr1`. -/
def bigShr1 (a : Uint256) : Uint256 :=
  ⟨(bigShr1Loop 0 a.words.reverse).reverse, by
    rw [List.length_reverse, length_bigShr1Loop, List.length_reverse, a.length_words]⟩

/-- The loop of `big512_shl` for a shift within the words. -/
def big512ShlLoop (bitShift : UInt64) : UInt64 → List UInt32 → List UInt32 × UInt64
  | carry, [] => ([], carry)
  | carry, a :: as =>
    let temp := (a.toUInt64 <<< bitShift) ||| carry
    let (res, carry) := big512ShlLoop bitShift (temp >>> 32) as
    (temp.toUInt32 :: res, carry)

@[simp] theorem length_big512ShlLoop (bitShift carry : UInt64) (as : List UInt32) :
    (big512ShlLoop bitShift carry as).1.length = as.length := by
  induction as generalizing carry with
  | nil => rfl
  | cons a as ih => exact congrArg (· + 1) (ih _)

/-- `big512_shl`, on a word shift that is not negative. -/
def big512Shl (a : Uint256) (wordShift bitShift : Nat) : Uint512 :=
  if _h : wordShift > 8 then .zero
  else if bitShift = 0 then
    ⟨List.replicate wordShift 0 ++ a.words ++ List.replicate (8 - wordShift) 0, by
      simp only [List.length_append, List.length_replicate, a.length_words]
      omega⟩
  else
    let out := big512ShlLoop (.ofNat bitShift) 0 a.words
    let high := if wordShift + 8 < 16 then out.2.toUInt32 :: List.replicate (7 - wordShift) 0 else []
    ⟨List.replicate wordShift 0 ++ out.1 ++ high, by
      have hhigh : high.length = 8 - wordShift := by
        simp only [high]
        split
        · rw [List.length_cons, List.length_replicate]
          omega
        · rw [List.length_nil]
          omega
      simp only [out, List.length_append, List.length_replicate, length_big512ShlLoop, a.length_words, hhigh]
      omega⟩

/-! ## Multiplication -/

/-- The inner loop of `big_mul`, over the words of `res` from the one at `i` on. The last carry overwrites the word behind. -/
def bigMulRow (ai : UInt32) : UInt64 → List UInt32 → List UInt32 → List UInt32
  | carry, b :: bs, r :: res =>
    let t := ai.toUInt64 * b.toUInt64 + r.toUInt64 + carry
    t.toUInt32 :: bigMulRow ai (t >>> 32) bs res
  | carry, [], _ :: res => carry.toUInt32 :: res
  | _, _, [] => []

@[simp] theorem length_bigMulRow (ai : UInt32) (carry : UInt64) (bs res : List UInt32) :
    (bigMulRow ai carry bs res).length = res.length := by
  induction res generalizing carry bs with
  | nil => cases bs <;> rfl
  | cons r res ih =>
    cases bs with
    | nil => rfl
    | cons b bs => exact congrArg (· + 1) (ih _ _)

/-- The outer loop of `big_mul`, over the words of `a` from the one at `i` on. No later row touches the word of `res` at `i`. -/
def bigMulLoop (bs : List UInt32) : List UInt32 → List UInt32 → List UInt32
  | a :: as, res =>
    match bigMulRow a 0 bs res with
    | r :: res => r :: bigMulLoop bs as res
    | [] => []
  | [], res => res

theorem length_bigMulLoop (bs as res : List UInt32) : (bigMulLoop bs as res).length = res.length := by
  induction as generalizing res with
  | nil => rfl
  | cons a as ih =>
    have hrow := length_bigMulRow a 0 bs res
    rw [bigMulLoop]
    split <;> rename_i heq <;> rw [heq] at hrow
    · rw [List.length_cons, ih, ← hrow, List.length_cons]
    · exact hrow

/-- `big_mul`. -/
def bigMul (a b : Uint256) : Uint512 :=
  ⟨bigMulLoop b.words a.words (List.replicate 16 0), by rw [length_bigMulLoop, List.length_replicate]⟩

/-! ## Division -/

/-- A line of `clz32`: where the bits under the mask are zero, the word moves up by their number. -/
def clzStep (mask : UInt32) (k : Nat) : Nat × UInt32 → Nat × UInt32
  | (m, x) => if x &&& mask = 0 then (m + k, x <<< .ofNat k) else (m, x)

/-- `clz32`. -/
def clz32 (x : UInt32) : Nat :=
  if x = 0 then 32
  else
    let s := clzStep 0xFFFF0000 16 (0, x)
    let s := clzStep 0xFF000000 8 s
    let s := clzStep 0xF0000000 4 s
    let (m, x) := clzStep 0xC0000000 2 s
    if x &&& 0x80000000 = 0 then m + 1 else m

/-- The loop for the highest word that is not zero, and the number of its highest bit. `none` where all words are zero. -/
def topBitLoop : List UInt32 → Option Nat
  | [] => none
  | w :: ws => if w ≠ 0 then some (32 * ws.length + (31 - clz32 w)) else topBitLoop ws

/-- The number of the highest bit of an array. -/
def Limbs.topBit {n : Nat} (a : Limbs n) : Option Nat := topBitLoop a.words.reverse

/-- A turn of the loop of `big_mod`, on `rem` and `rem_bit`. -/
def bigModTurn (m : Uint256) (mBit : Int) : Uint512 × Int → Option ((Uint512 × Int) ⊕ Uint256)
  | (rem, remBit) =>
    if remBit ≥ mBit then
      let shift := (remBit - mBit).toNat
      let wordShift := shift / 32
      let bitShift := shift % 32
      let shifted := big512Shl m wordShift bitShift
      if bigCmp512 rem shifted ≥ 0 then
        let rem := (bigSub512 rem shifted).1
        match rem.topBit with
        | none => some (.inr .zero)
        | some remBit => some (.inl (rem, remBit))
      else some (.inl (rem, remBit - 1))
    else some (.inr rem.low256)

/-- `big_mod`, with fuel for its loop. -/
def bigMod (fuel : Nat) (a : Uint512) (m : Uint256) : Option Uint256 :=
  match a.topBit, m.topBit with
  | none, _ => some .zero
  | some _, none => some a.low256
  | some remBit, some mBit => if remBit < mBit then some a.low256 else Loop.iterate (bigModTurn m mBit) fuel (a, remBit)

end AuthVideo
