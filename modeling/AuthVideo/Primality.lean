import Mathlib.Algebra.Group.Nat.Defs
import Mathlib.Data.Nat.Init

/-!
# The primes of the simulation

`sever.py` and `User_simple.py` hold the same text of the Miller–Rabin test. The numbers of `random` and of `libnum` come from
outside.
-/

namespace AuthVideo

/-- `random.randint`, call by call: a number in the range it is given. -/
structure Random where
  randint : Nat → Nat → Nat → Nat
  randint_mem : ∀ call lo hi, lo ≤ hi → lo ≤ randint call lo hi ∧ randint call lo hi ≤ hi

/-- The loop that writes `n - 1` as `2 ^ r * d`, on an even `d` that is not 0. -/
def splitTwos (r d : Nat) : Nat × Nat := if _h : d % 2 = 0 ∧ 0 < d then splitTwos (r + 1) (d / 2) else (r, d)
termination_by d
decreasing_by exact Nat.div_lt_self _h.2 (by decide)

/-- The inner loop: whether one of the next squares is `n - 1`. -/
def squaresReach (n : Nat) : Nat → Nat → Bool
  | 0, _ => false
  | turns + 1, x =>
    let x := x ^ 2 % n
    if x = n - 1 then true else squaresReach n turns x

/-- The loop over the rounds, with the number of the next call of `randint`. -/
def Random.rounds (R : Random) (n r d : Nat) : Nat → Nat → Bool
  | 0, _ => true
  | k + 1, call =>
    let a := R.randint call 2 (n - 2)
    let x := a ^ d % n
    if x = 1 ∨ x = n - 1 then R.rounds n r d k (call + 1)
    else if squaresReach n (r - 1) x then R.rounds n r d k (call + 1)
    else false

/-- `miller_rabin`. -/
def Random.millerRabin (R : Random) (n : Nat) (k : Int) : Bool :=
  if n ≤ 1 then false
  else if n ≤ 3 then true
  else if n % 2 = 0 then false
  else
    let (r, d) := splitTwos 0 (n - 1)
    R.rounds n r d k.toNat 0

/-- `creat_number`, at most `fuel` turns: `generatePrime` gives the number of each turn and the draws of its test. -/
def creatNumber (generatePrime : Nat → Nat × Random) : Nat → Nat → Option Nat
  | 0, _ => none
  | fuel + 1, turn =>
    let (p, R) := generatePrime turn
    if R.millerRabin p 5 then some p else creatNumber generatePrime fuel (turn + 1)

end AuthVideo
