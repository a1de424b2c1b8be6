import AuthVideo.Server

/-!
# The device

`User_simple.py`: the class `User`, the handling of responses, and the exchange of a device with the centre. A check of the
device only prints its outcome, and the run goes on either way, so a check is recorded here as a verdict. What the user types
and the nonce that the device draws are arguments.
-/

namespace AuthVideo

/-- The checks whose outcome the device prints. -/
inductive Check where
  | selfAuth
  | tagHM2
  | pseudonym
  | tagHM5
  | nonce
  deriving DecidableEq, Repr

/-- A check and its outcome. -/
abbrev Verdict := Check × Bool

/-- The attributes of a `User`, `none` until they are set; `register_proc` sets those of the registration together. -/
structure User where
  reg : Option Registration
  PID : Option Int
  QID : Option Int
  tmpa1 : Option Int
  b : Option Int
  TA1 : Option Int
  TB : Option Int
  a : Option Int
  deriving DecidableEq, Repr

/-- `User()`. -/
def User.init : User := ⟨none, none, none, none, none, none, none, none⟩

/-- `register_proc`. -/
def User.registerProc (u : User) (reg : Registration) : User := { u with reg := some reg }

/-- `chebyshev_matrix` on the device, whose index may be `None` and whose modulus comes from a message. -/
def Registration.chebyshev (reg : Registration) (n : Option Int) (x : Int) : Except PyError Int := do
  let n ← asInt n
  if reg.N = 0 then .error .zeroDivisionError else .ok (chebyshevMatrix n x reg.N)

/-- `auth_pre`: `QID, QPW, QA`, and `none` where the self-authentication fails. -/
def Ctx.authPre (Γ : Ctx) (id pw Bio : Int) (u : User) : Except PyError (Option (Int × Int × Int) × User) := do
  let reg ← attr u.reg
  let PID1 ← Γ.sm3Cat [some id, some reg.L, some Bio]
  let h ← Γ.sm3Cat [some id, some pw, some Bio]
  let A1 := Int.xor h reg.L
  if A1 = reg.A then
    let QID ← reg.chebyshev reg.d PID1
    let QPW ← reg.chebyshev reg.d pw
    let QA ← reg.chebyshev reg.d A1
    return (some (QID, QPW, QA), { u with PID := some PID1, QID := some QID })
  else return (none, u)

/-- `Sharedkey_Gen`, with the `b` that it draws: the reply `N2, TC, QID2, HM3`. -/
def Ctx.deviceSharedkeyGen (Γ : Ctx) (QID1 N1 HM2 : Int) (b : Nat) (u : User) :
    Except PyError ((Int × Int × Int × Int) × List Verdict × User) := do
  let tag ← Γ.sm3Cat [some QID1, some N1]
  let reg ← attr u.reg
  let TTG ← reg.chebyshev (some reg.A) reg.pk
  let QID ← attr u.QID
  let a1 := Int.xor N1 TTG
  let N2 := Int.xor TTG b
  let c := a1 + b
  let TC ← reg.chebyshev (some c) reg.pk
  let TA1 ← reg.chebyshev (some a1) reg.pk
  let TB ← reg.chebyshev (some b) reg.pk
  let QID2 ← reg.chebyshev reg.d QID
  let HM3 ← Γ.sm3Cat [some N2, some TC, some QID2]
  return ((N2, TC, QID2, HM3), [(.tagHM2, HM2 = tag), (.pseudonym, Int.xor QID1 TTG = QID)],
    { u with tmpa1 := some a1, b := some b, TA1 := some TA1, TB := some TB })

/-- `Sharedkey_Gen2`: the key. Where the nonce check fails, the key is made from the `a` of an earlier run. -/
def Ctx.deviceSharedkeyGen2 (Γ : Ctx) (TC1 QID3 HM5 : Int) (u : User) : Except PyError (Int × List Verdict × User) := do
  let tag ← Γ.sm3Cat [some TC1, some QID3]
  let TA ← attr u.TA1
  let TB ← attr u.TB
  let reg ← attr u.reg
  if reg.N = 0 then .error .zeroDivisionError
  else
    let same := (TA * TA + TB * TB + TC1 * TC1) % reg.N = (2 * TA * TB * TC1 + 1) % reg.N
    let u ← (if same then (attr u.tmpa1).map fun a1 => { u with a := some a1 } else .ok { u with tmpa1 := some 0 })
    let AA ← reg.chebyshev (some reg.A) reg.pk
    let KS ← Γ.sm3Cat [some (← attr u.a), some (← attr u.b), some AA]
    return (KS, [(.tagHM5, HM5 = tag), (.nonce, same)], u)

/-! ## Messages -/

/-- The request of `register_request`, with what the user typed. -/
def registerRequest (userid password bio : Int) : Request :=
  ⟨some "register", [("userid", userid), ("password", password), ("Bio", bio)]⟩

/-- The request that carries the result of `auth_pre`. -/
def authRequest (QID QPW QA : Int) : Request := ⟨some "auth_request", [("QID", QID), ("QPW", QPW), ("QA", QA)]⟩

/-- The request that carries the result of `Sharedkey_Gen`. -/
def sharedKeyGenResponse (N2 TC QID2 HM3 : Int) : Request :=
  ⟨some "SharedKey_Gen_response", [("N2", N2), ("TC", TC), ("QID2", QID2), ("HM3", HM3)]⟩

/-- The loop of a login: the user types until the self-authentication passes. -/
def Ctx.login (Γ : Ctx) : List (Int × Int × Int) → User → Except PyError (Option Request × List Verdict × User)
  | [], u => .ok (none, [], u)
  | (userid, password, Bio) :: inputs, u => do
    match ← Γ.authPre userid password Bio u with
    | (some (QID, QPW, QA), u) => return (some (authRequest QID QPW QA), [(.selfAuth, true)], u)
    | (none, u) =>
      let (request, verdicts, u) ← Γ.login inputs u
      return (request, (.selfAuth, false) :: verdicts, u)

/-- What the device does on a response: the request that it sends, if any, the key that it derives, if any. -/
structure Reaction where
  request : Option Request
  KS : Option Int
  verdicts : List Verdict
  user : User
  deriving DecidableEq, Repr

/-- `handle_response`, with the inputs that the user types and the nonce that the device draws. -/
def Ctx.handleResponse (Γ : Ctx) (response : Response) (inputs : List (Int × Int × Int)) (b : Nat) (u : User) :
    Except PyError Reaction :=
  match response.action with
  | none => .error .keyError
  | some action =>
    if action = "register_ack" ∧ response.status = 200 then
      match response.payload with
      | some (.registerAck reg) => do
        let (request, verdicts, u) ← Γ.login inputs (u.registerProc reg)
        return ⟨request, none, verdicts, u⟩
      | _ => .error .keyError
    else if action = "SharedKey_Gen_request" then
      if response.status = 400 then .ok ⟨none, none, [], u⟩
      else
        match response.payload with
        | some (.sharedKeyGenRequest QID1 N1 HM2) => do
          let ((N2, TC, QID2, HM3), verdicts, u) ← Γ.deviceSharedkeyGen QID1 N1 HM2 b u
          return ⟨some (sharedKeyGenResponse N2 TC QID2 HM3), none, verdicts, u⟩
        | _ => .error .keyError
    else if action = "SharedKey_Gen_Finish" ∧ response.status = 200 then
      match response.payload with
      | some (.sharedKeyGenFinish TC1 _ QID3 HM5) => do
        let (KS, verdicts, u) ← Γ.deviceSharedkeyGen2 TC1 QID3 HM5 u
        return ⟨none, some KS, verdicts, u⟩
      | _ => .error .keyError
    else .ok ⟨none, none, [], u⟩

/-! ## The exchange -/

/-- What the two sides draw, and what the user types, while one request is sent and answered. -/
structure Round where
  drawn : Nat
  b : Nat
  inputs : List (Int × Int × Int)

/-- What an exchange leaves: the messages in order, the verdicts of the device in order, its key, and both sides. -/
structure Outcome where
  transcript : List (Request × Response)
  verdicts : List Verdict
  KS : Option Int
  server : Server
  user : User
  deriving DecidableEq, Repr

/-- The key that the centre reports in its last response. -/
def Outcome.serverKey (out : Outcome) : Option Int :=
  match out.transcript.getLast? with
  | some (_, ⟨_, _, _, some (.sharedKeyGenFinish _ KS _ _)⟩) => some KS
  | _ => none

/-- `send_request`: the centre answers the request, the device handles the answer, and sends the next request if there is one.
No message is changed on its way. -/
def Ctx.sendRequest (Γ : Ctx) (C : Center) : List Round → Request → Server → User → Except PyError Outcome
  | [], _, server, user => .ok ⟨[], [], none, server, user⟩
  | round :: rounds, request, server, user => do
    let (response, server) ← Γ.processRequest C request round.drawn server
    let reaction ← Γ.handleResponse response round.inputs round.b user
    match reaction.request with
    | none => return ⟨[(request, response)], reaction.verdicts, reaction.KS, server, reaction.user⟩
    | some next =>
      let out ← Γ.sendRequest C rounds next server reaction.user
      return { out with transcript := (request, response) :: out.transcript, verdicts := reaction.verdicts ++ out.verdicts }

end AuthVideo
