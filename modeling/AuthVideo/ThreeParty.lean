import AuthVideo.Chebyshev
import AuthVideo.Python

/-!
# The agreement of three parties

`compare1_cheb.py`: `protocol` plays two users `A` and `B` and a server `S` in one function. The script holds the text of the
matrix functions of `sever.py` once more. What it draws are arguments, and its hash of a text is one of its own, whose values
have no bound.
-/

namespace AuthVideo

/-- What `protocol` draws with `creat_number`. -/
structure Draws where
  piA : Nat
  p : Nat
  x : Nat
  piB : Nat
  S : Nat
  A : Nat
  B : Nat
  a : Nat
  b : Nat
  c : Nat
  d : Nat

/-- The keys and the verification values of a run. -/
structure Agreed where
  KBs : Int
  uBs : Nat
  KBA : Int
  uBa : Nat
  SK : Nat
  KAs : Int
  uAs : Nat
  KAB : Int
  uAb : Nat
  KSA : Int
  KSB : Int
  uSa : Nat
  uSb : Nat
  SK2 : Nat

/-- `sm3_hash(int(str(a) + str(b) + ...))` with the hash of the script. -/
def Ctx.hashCat (Γ : Ctx) (hash : Text → Nat) (vs : List Int) : Except PyError Nat := do
  let message ← Γ.cat (vs.map some)
  let text ← Γ.str message
  return hash text

/-- `protocol`. It computes `KAB` twice; `uBa` and `uAb` differ in the order of the two names, and no party compares them. -/
def Ctx.protocol (Γ : Ctx) (hash : Text → Nat) (r : Draws) : Except PyError Agreed := do
  let tA ← Γ.hashCat hash [r.A, r.S, r.piA]
  let tB ← Γ.hashCat hash [r.B, r.S, r.piB]
  let vA := chebyshevMatrix tA r.x r.p
  let vB := chebyshevMatrix tB r.x r.p
  let Xa := chebyshevMatrix r.a r.x r.p
  let Xb := chebyshevMatrix r.b r.x r.p
  let XSa := Int.xor (chebyshevMatrix r.c r.x r.p) vA
  let XSb := Int.xor (chebyshevMatrix r.d r.x r.p) vB
  -- B
  let Td := Int.xor XSb vB
  let KBs := Int.xor (chebyshevMatrix r.b Td r.p) (chebyshevMatrix tB Td r.p)
  let uBs ← Γ.hashCat hash [r.B, r.S, Xb, Xa, KBs]
  let KBA := chebyshevMatrix r.b Xa r.p
  let uBa ← Γ.hashCat hash [r.B, r.A, Xb, Xa, KBA]
  let SK ← Γ.hashCat hash [r.A, r.B, r.S, Xa, Xb, KBA]
  -- A
  let Tc := Int.xor XSa vA
  let KAs := Int.xor (chebyshevMatrix r.a Tc r.p) (chebyshevMatrix tA Tc r.p)
  let uAs ← Γ.hashCat hash [r.A, r.S, Xa, Xb, KAs]
  let KAB := chebyshevMatrix r.a Xb r.p
  let uAb ← Γ.hashCat hash [r.A, r.B, Xa, Xb, KBA]
  -- the server
  let KSA := Int.xor (chebyshevMatrix r.c vA r.p) (chebyshevMatrix r.c Xa r.p)
  let KSB := Int.xor (chebyshevMatrix r.d vB r.p) (chebyshevMatrix r.d Xb r.p)
  let uSa ← Γ.hashCat hash [r.A, r.S, Xa, Xb, KSA]
  let uSb ← Γ.hashCat hash [r.B, r.S, Xb, Xa, KSB]
  let SK2 ← Γ.hashCat hash [r.A, r.B, r.S, Xa, Xb, KAB]
  return { KBs, uBs, KBA, uBa, SK, KAs, uAs, KAB, uAb, KSA, KSB, uSa, uSb, SK2 }

end AuthVideo
