import AuthVideo.Lib.Calculus

/-!
# The symbolic model

`my_demo_1.pv`: the terms with their two equations, what the attacker can do with them, and the two roles. A tuple is the list
of its components. The names of the roles and their variables are those of the file.
-/

namespace AuthVideo

open Calculus

/-! ## Terms -/

/-- The free names and constants of the file. -/
inductive Free where
  | c
  | x
  | N
  | PK
  | SK
  | AuthK
  | ID
  | PW
  | Bio
  | secrets
  deriving DecidableEq, Repr

/-- The attacker has the names that are not declared private. -/
def Free.Public : Free → Prop
  | .c | .x | .N | .PK => True
  | _ => False

/-- Terms. -/
inductive Bitstring where
  | free (k : Free)
  | name (n : Nat)
  | hash (a : Bitstring)
  | xor (a b : Bitstring)
  | c2 (a b : Bitstring)
  | c3 (a b c : Bitstring)
  | c4 (a b c d : Bitstring)
  | T (n x : Bitstring)
  | plus (a b : Bitstring)
  | pk (sk : Bitstring)
  | aenc (m k : Bitstring)
  | adec (m sk : Bitstring)
  | nil
  | cons (a b : Bitstring)
  deriving DecidableEq, Repr

/-- Equality of terms: the congruence that the two equations of the file generate. -/
inductive Eqv : Bitstring → Bitstring → Prop where
  | xor_cancel (a b : Bitstring) : Eqv (.xor (.xor a b) b) a
  | adec_aenc (m sk : Bitstring) : Eqv (.adec (.aenc m (.pk sk)) sk) m
  | refl (a : Bitstring) : Eqv a a
  | symm {a b : Bitstring} : Eqv a b → Eqv b a
  | trans {a b c : Bitstring} : Eqv a b → Eqv b c → Eqv a c
  | hash {a a' : Bitstring} : Eqv a a' → Eqv (.hash a) (.hash a')
  | xor {a a' b b' : Bitstring} : Eqv a a' → Eqv b b' → Eqv (.xor a b) (.xor a' b')
  | c2 {a a' b b' : Bitstring} : Eqv a a' → Eqv b b' → Eqv (.c2 a b) (.c2 a' b')
  | c3 {a a' b b' c c' : Bitstring} : Eqv a a' → Eqv b b' → Eqv c c' → Eqv (.c3 a b c) (.c3 a' b' c')
  | c4 {a a' b b' c c' d d' : Bitstring} : Eqv a a' → Eqv b b' → Eqv c c' → Eqv d d' → Eqv (.c4 a b c d) (.c4 a' b' c' d')
  | T {n n' x x' : Bitstring} : Eqv n n' → Eqv x x' → Eqv (.T n x) (.T n' x')
  | plus {a a' b b' : Bitstring} : Eqv a a' → Eqv b b' → Eqv (.plus a b) (.plus a' b')
  | pk {a a' : Bitstring} : Eqv a a' → Eqv (.pk a) (.pk a')
  | aenc {a a' b b' : Bitstring} : Eqv a a' → Eqv b b' → Eqv (.aenc a b) (.aenc a' b')
  | adec {a a' b b' : Bitstring} : Eqv a a' → Eqv b b' → Eqv (.adec a b) (.adec a' b')
  | cons {a a' b b' : Bitstring} : Eqv a a' → Eqv b b' → Eqv (.cons a b) (.cons a' b')

/-- What the attacker derives: it applies every function of the file, builds tuples and takes them apart. -/
inductive Derives (K : List Bitstring) : Bitstring → Prop where
  | known {t : Bitstring} : t ∈ K → Derives K t
  | free {k : Free} : k.Public → Derives K (.free k)
  | eqv {t t' : Bitstring} : Derives K t → Eqv t t' → Derives K t'
  | hash {a : Bitstring} : Derives K a → Derives K (.hash a)
  | xor {a b : Bitstring} : Derives K a → Derives K b → Derives K (.xor a b)
  | c2 {a b : Bitstring} : Derives K a → Derives K b → Derives K (.c2 a b)
  | c3 {a b c : Bitstring} : Derives K a → Derives K b → Derives K c → Derives K (.c3 a b c)
  | c4 {a b c d : Bitstring} : Derives K a → Derives K b → Derives K c → Derives K d → Derives K (.c4 a b c d)
  | T {n x : Bitstring} : Derives K n → Derives K x → Derives K (.T n x)
  | plus {a b : Bitstring} : Derives K a → Derives K b → Derives K (.plus a b)
  | pk {a : Bitstring} : Derives K a → Derives K (.pk a)
  | aenc {m k : Bitstring} : Derives K m → Derives K k → Derives K (.aenc m k)
  | adec {m sk : Bitstring} : Derives K m → Derives K sk → Derives K (.adec m sk)
  | nil : Derives K .nil
  | cons {a b : Bitstring} : Derives K a → Derives K b → Derives K (.cons a b)
  | head {a b : Bitstring} : Derives K (.cons a b) → Derives K a
  | tail {a b : Bitstring} : Derives K (.cons a b) → Derives K b

/-- The terms as a theory of the calculus. -/
def theory : Theory Bitstring := ⟨Eqv, .name, Derives, .known⟩

/-! ## Roles -/

/-- The statements of the file that create a name. -/
inductive Fresh where
  | L
  | L0
  | Authr
  | rDev
  deriving DecidableEq, Repr

/-- The events of the file. -/
inductive Event where
  | AuthDevBegin (PID : Bitstring)
  | AuthDevEnd (PID : Bitstring)
  | AuthTCBegin (PID : Bitstring)
  | AuthTCEnd (PID : Bitstring)
  | KeyDev (PID ks : Bitstring)
  | KeyTC (PID ks : Bitstring)
  deriving DecidableEq, Repr

/-- A process of the file. -/
abbrev Proc := Process Bitstring Fresh Event

open Bitstring Process

/-- The end of `EndDevice`: it waits for M4, and derives the key. -/
def EndDevice.waitM4 (PID A Authr rDev : Bitstring) : Proc :=
  inp 3 fun v =>
    let AuthSumEnc := v 0
    let QIDp2 := v 1
    let mac4 := v 2
    cond mac4 (hash (c2 AuthSumEnc QIDp2))
      (let chebPart := T (free .SK) (T A (free .x))
      let ks := hash (c3 chebPart Authr rDev)
      event (.KeyDev PID ks) <|
      event (.AuthDevEnd PID)
      zero)
      zero

/-- `EndDevice`. -/
def EndDevice (DevK PID A : Bitstring) : Proc :=
  let QID := aenc PID DevK
  let QPW := aenc (free .PW) DevK
  let QA := aenc A DevK
  let mac1 := hash (c3 QID QPW QA)
  event (.AuthDevBegin PID) <|
  out [QID, QPW, QA, mac1] <|
  inp 3 fun v =>
    let QIDp := v 0
    let N1 := v 1
    let mac2 := v 2
    cond mac2 (hash (c2 QIDp N1))
      (let AT_PK := T A (free .PK)
      let QID_rec := xor QIDp AT_PK
      let Authr := xor N1 AT_PK
      new .rDev fun rDev =>
        let N2 := xor (name rDev) AT_PK
        let DevSum := plus Authr (name rDev)
        let DevSumEnc := T DevSum (free .PK)
        let mac3 := hash (c3 N2 DevSumEnc QID_rec)
        out [N2, DevSumEnc, QID_rec, mac3] <|
        EndDevice.waitM4 PID A Authr (name rDev))
      zero

/-- The pseudonym of a registration. -/
def registeredPID (L : Bitstring) : Bitstring := hash (c3 (free .ID) L (free .Bio))

/-- The parameter of a registration. -/
def registeredA (L : Bitstring) : Bitstring := hash (c4 (free .ID) (free .PW) (free .Bio) L)

/-- `TrustCenter` after it has drawn its `L`. -/
def TrustCenter.registered (L : Bitstring) : Proc :=
  let A := registeredA L
  let V := T (free .SK) (T A (free .x))
  inp 4 fun v =>
    let QID := v 0
    let QPW := v 1
    let QA := v 2
    let mac1 := v 3
    cond mac1 (hash (c3 QID QPW QA))
      (let PID2 := adec QID (free .AuthK)
      let A2 := adec QA (free .AuthK)
      let V2 := T (free .SK) (T A2 (free .x))
      cond V2 V
        (event (.AuthTCBegin PID2) <|
        new .Authr fun Authr =>
          let AT_PK := T A2 (free .PK)
          let QIDp := xor QID AT_PK
          let N1 := xor (name Authr) AT_PK
          let mac2 := hash (c2 QIDp N1)
          out [QIDp, N1, mac2] <|
          inp 4 fun w =>
            let N2 := w 0
            let DevSumEnc := w 1
            let QID_rec := w 2
            let mac3 := w 3
            cond mac3 (hash (c3 N2 DevSumEnc QID_rec))
              (let rDev := xor N2 AT_PK
              let AuthSum := plus (name Authr) rDev
              let AuthSumEnc := T AuthSum (free .PK)
              let mac4 := hash (c2 AuthSumEnc QIDp)
              out [AuthSumEnc, QIDp, mac4] <|
              let ks_tc := hash (c3 V (name Authr) rDev)
              event (.KeyTC PID2 ks_tc) <|
              event (.AuthTCEnd PID2)
              zero)
              zero)
        zero)
      zero

/-- `TrustCenter`. -/
def TrustCenter : Proc := new .L fun L => TrustCenter.registered (name L)

/-- The device's branch of the main process. -/
def deviceBranch : Proc :=
  new .L0 fun L0 => EndDevice (pk (free .AuthK)) (registeredPID (name L0)) (registeredA (name L0))

/-- The main process. -/
def mainProcess : Proc := par TrustCenter deviceBranch

/-- The main process with the replication that its comment asks for. -/
def replicatedProcess : Proc := par (repl TrustCenter) (repl deviceBranch)

/-- Some copies of both roles. -/
def copies (m n : Nat) : List Proc := List.replicate m TrustCenter ++ List.replicate n deviceBranch

end AuthVideo
