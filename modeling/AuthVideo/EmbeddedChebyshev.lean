import AuthVideo.BigNum

/-!
# The Chebyshev polynomial of the boards

`ChebyShev.c` from its matrices on. Of the variables at file level only `carry4` is read before it is written in a call, so only
`carry4` is state; the others (`t0`, `t1`, `r0`, `r1`, `carry3`, `one`, `base`, `e`, `tmp`, `tmp2`, `two_x`, `M`, `exp`, `Mpow`)
are values of the call.
-/

namespace AuthVideo

/-- `Matrix2x2`. -/
structure Matrix2x2 where
  a00 : Uint256
  a01 : Uint256
  a10 : Uint256
  a11 : Uint256
  deriving DecidableEq

/-- The six lines that `matrix_mul` and `chebyshev_Tn` repeat for each of their sums of two products modulo `m`: the sum, and
the carry of its addition. -/
def mulAddMod (fuel : Nat) (a b c d m : Uint256) : Option (Uint256 × UInt32) := do
  let t0 := bigMul a b
  let r0 ← bigMod fuel t0 m
  let t1 := bigMul c d
  let r1 ← bigMod fuel t1 m
  let (r0, carry) := bigAdd r0 r1
  if carry ≠ 0 ∨ bigCmp r0 m ≥ 0 then return ((bigSub r0 m).1, carry) else return (r0, carry)

/-- `matrix_mul`. -/
def matrixMul (fuel : Nat) (A B : Matrix2x2) (m : Uint256) : Option Matrix2x2 := do
  let (c00, _) ← mulAddMod fuel A.a00 B.a00 A.a01 B.a10 m
  let (c01, _) ← mulAddMod fuel A.a00 B.a01 A.a01 B.a11 m
  let (c10, _) ← mulAddMod fuel A.a10 B.a00 A.a11 B.a10 m
  let (c11, _) ← mulAddMod fuel A.a10 B.a01 A.a11 B.a11 m
  return ⟨c00, c01, c10, c11⟩

/-- A turn of the loop of `matrix_pow`, on `result`, `base` and `e`. -/
def matrixPowTurn (fuel : Nat) (m : Uint256) :
    Matrix2x2 × Matrix2x2 × Uint256 → Option ((Matrix2x2 × Matrix2x2 × Uint256) ⊕ Matrix2x2)
  | (result, base, e) => do
    let result ← (if e.low &&& 1 ≠ 0 then matrixMul fuel result base m else some result)
    if e.IsZero then return .inr result
    else
      let e := bigShr1 e
      let base ← matrixMul fuel base base m
      return .inl (result, base, e)

/-- `matrix_pow`, where `one` is the file-level number, set to 1 by the caller. -/
def matrixPow (fuel : Nat) (one : Uint256) (M : Matrix2x2) (exp m : Uint256) : Option Matrix2x2 :=
  let one := one.setLow 1
  let result := ⟨one, .zero, .zero, one⟩
  Loop.iterate (matrixPowTurn fuel m) fuel (result, M, exp)

/-- The loop of `chebyshev_Tn` that doubles `x`, on `carry4`. -/
def doubleLoop : UInt64 → List UInt32 → List UInt32 × UInt64
  | carry4, [] => ([], carry4)
  | carry4, x :: xs =>
    let t := (x.toUInt64 <<< 1) + carry4
    let (twoX, carry4) := doubleLoop (t >>> 32) xs
    (t.toUInt32 :: twoX, carry4)

@[simp] theorem length_doubleLoop (carry4 : UInt64) (xs : List UInt32) : (doubleLoop carry4 xs).1.length = xs.length := by
  induction xs generalizing carry4 with
  | nil => rfl
  | cons x xs ih => exact congrArg (· + 1) (ih _)

/-- The doubled `x`, and `carry4`. -/
def double (carry4 : UInt64) (x : Uint256) : Uint256 × UInt64 :=
  let out := doubleLoop carry4 x.words
  (⟨out.1, by rw [length_doubleLoop, x.length_words]⟩, out.2)

/-- The test of `n` against one. -/
def Limbs.IsOne {n : Nat} (a : Limbs n) : Prop := a.low = 1 ∧ ∀ w ∈ a.words.tail, w = 0

instance {n : Nat} (a : Limbs n) : Decidable a.IsOne := @instDecidableAnd _ _ _ (List.decidableBAll _ a.words.tail)

/-- What `chebyshev_Tn` writes: `Tn` and `Tn_minus_1`. -/
structure ChebyshevOut where
  Tn : Uint256
  TnMinus1 : Uint256
  deriving DecidableEq

/-- The transfer matrix of `chebyshev_Tn`, from `carry4`: `[[2x, -1], [1, 0]]` modulo `p`. -/
def transferMatrix (carry4 : UInt64) (x p one : Uint256) : Matrix2x2 :=
  let (twoX, carry4) := double carry4 x
  let twoX := if carry4 ≠ 0 ∨ bigCmp twoX p ≥ 0 then (bigSub twoX p).1 else twoX
  let tmp256 := (bigSub p one).1
  ⟨twoX, tmp256, Limbs.zero.setLow 1, .zero⟩

/-- `chebyshev_Tn`, from `carry4` to `carry4`, with fuel for its loops. -/
def chebyshevTn (fuel : Nat) (carry4 : UInt64) (n x p : Uint256) : Option (ChebyshevOut × UInt64) :=
  if n.IsZero then some (⟨Limbs.zero.setLow 1, .zero⟩, carry4)
  else if n.IsOne then some (⟨x, Limbs.zero.setLow 1⟩, carry4)
  else do
    let one := (setUint256 0 0 0 0 0 0 0 0).setLow 1
    let M := transferMatrix carry4 x p one
    let exp := (bigSub n one).1
    let Mpow ← matrixPow fuel one M exp p
    let (Tn, _) ← mulAddMod fuel Mpow.a00 x Mpow.a01 one p
    let (TnMinus1, carry) ← mulAddMod fuel Mpow.a10 x Mpow.a11 one p
    return (⟨Tn, TnMinus1⟩, carry.toUInt64)

end AuthVideo
