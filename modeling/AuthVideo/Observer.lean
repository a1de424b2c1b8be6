import AuthVideo.Device

/-!
# A passive observer

What an observer of the exchange can compute: terms over the fields of the six messages and the public parameters, with the
operations of the code. The key that the last response happens to carry is not among the fields.
-/

namespace AuthVideo

/-- The fields that the messages of authentication and key confirmation carry. -/
inductive Wire where
  | QID | QPW | QA
  | QID1 | N1 | HM2
  | N2 | TC | QID2 | HM3
  | TC1 | QID3 | HM5
  deriving DecidableEq, Repr

/-- The value of a field in the messages of an exchange. -/
def Wire.read (w : Wire) : List (Request × Response) → Option Int
  | [_, (m2, r2), (m3, r3)] =>
    match w, r2.payload, r3.payload with
    | .QID, _, _ => m2.get "QID"
    | .QPW, _, _ => m2.get "QPW"
    | .QA, _, _ => m2.get "QA"
    | .QID1, some (.sharedKeyGenRequest v _ _), _ => some v
    | .N1, some (.sharedKeyGenRequest _ v _), _ => some v
    | .HM2, some (.sharedKeyGenRequest _ _ v), _ => some v
    | .N2, _, _ => m3.get "N2"
    | .TC, _, _ => m3.get "TC"
    | .QID2, _, _ => m3.get "QID2"
    | .HM3, _, _ => m3.get "HM3"
    | .TC1, _, some (.sharedKeyGenFinish v _ _ _) => some v
    | .QID3, _, some (.sharedKeyGenFinish _ _ v _) => some v
    | .HM5, _, some (.sharedKeyGenFinish _ _ _ v) => some v
    | _, _, _ => none
  | _ => none

/-- What everyone knows of a centre. -/
structure PublicParams where
  N : Nat
  x : Int
  pk : Int

/-- The public part of a centre. -/
def Center.publicParams (C : Center) : PublicParams := ⟨C.N, C.x, C.pk⟩

/-- A fixed function of the fields and the public parameters, by the operations of the code. -/
inductive Term where
  | wire (w : Wire)
  | num (n : Nat)
  | N
  | x
  | pk
  | xor (s t : Term)
  | chebyshev (n y : Term)
  | cat (s t : Term)
  | sm3 (t : Term)
  deriving Repr

/-- The value of a term on the messages of an exchange. -/
def Ctx.eval (Γ : Ctx) (pub : PublicParams) (transcript : List (Request × Response)) : Term → Except PyError Int
  | .wire w => match w.read transcript with
    | none => .error .keyError
    | some z => .ok z
  | .num n => .ok n
  | .N => .ok pub.N
  | .x => .ok pub.x
  | .pk => .ok pub.pk
  | .xor s t => do return Int.xor (← Γ.eval pub transcript s) (← Γ.eval pub transcript t)
  | .chebyshev n y => do return chebyshevMatrix (← Γ.eval pub transcript n) (← Γ.eval pub transcript y) pub.N
  | .cat s t => do Γ.cat [some (← Γ.eval pub transcript s), some (← Γ.eval pub transcript t)]
  | .sm3 t => do Γ.sm3Hash (← Γ.eval pub transcript t)

/-- The mask of the centre, as the observer gets it: the pseudonym is sent bare in the request and masked in the answer. -/
def Term.mask : Term := .xor (.wire .QID1) (.wire .QID)

/-- The observer's key: both nonces are sent under that same mask. -/
def Term.key : Term :=
  .sm3 (.cat (.cat (.xor (.wire .N1) .mask) (.xor (.wire .N2) .mask)) .mask)

end AuthVideo
