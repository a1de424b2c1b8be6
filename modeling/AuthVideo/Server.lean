import AuthVideo.Chebyshev
import AuthVideo.Lib.Keyed
import AuthVideo.Lib.Machine
import AuthVideo.Python

/-!
# The authentication centre

`sever.py`: the identity store in `people.json`, the class `authencenter`, and the routing of requests. Random numbers are
arguments: each request makes the centre draw at most one. What the code only prints is left out, and so is the branch on
`AA & Auth` in `user_auth`, both arms of which only print.
-/

namespace AuthVideo

/-! ## The identity store -/

/-- A record of `people.json`. -/
structure Person where
  name : Text
  A : Text
  Auth : Text
  deriving DecidableEq, Repr

/-- The file `people.json`, `none` while it does not exist. -/
abbrev JsonFile := Option (List Person)

/-- `initialize_json_file`. -/
def initializeJsonFile : JsonFile → JsonFile
  | none => some []
  | some people => some people

/-- `add_person`. -/
def addPerson (pid A Auth : Text) : JsonFile → Except PyError JsonFile
  | none => .error .fileNotFoundError
  | some people => .ok (some (people ++ [⟨pid, A, Auth⟩]))

/-- `get_person_by_name`: the first record of that name, its two texts converted to integers. -/
def Ctx.getPersonByName (Γ : Ctx) (name : Text) : JsonFile → Except PyError (Option (Int × Int))
  | none => .error .fileNotFoundError
  | some people =>
    match people.find? fun person => person.name = name with
    | none => .ok none
    | some person => do
      let A ← Γ.int person.A
      let Auth ← Γ.int person.Auth
      return some (A, Auth)

/-- The test of `update_person`: a value that is given and not empty takes the place of the old one. -/
def overwrite (new : Option Text) (old : Text) : Text :=
  match new with
  | none => old
  | some t => if t ≠ [] then t else old

/-- `update_person`. The loop stops at the first record of that name. -/
def updatePerson (name : Text) (newEmail newPhone : Option Text) : JsonFile → Except PyError JsonFile
  | none => .error .fileNotFoundError
  | some people =>
    .ok (some (Keyed.modifyFirst Person.name name
      (fun person => { person with A := overwrite newEmail person.A, Auth := overwrite newPhone person.Auth }) people))

/-- `delete_person`. -/
def deletePerson (name : Text) : JsonFile → Except PyError JsonFile
  | none => .error .fileNotFoundError
  | some people => .ok (some (Keyed.erase Person.name name people))

/-! ## The centre -/

/-- What `authencenter.__init__` draws. `creat_number` returns positive numbers. -/
structure Center where
  p : Nat
  q : Nat
  x : Nat
  sk : Nat
  e : Nat
  p_pos : 0 < p
  q_pos : 0 < q

namespace Center

/-- The modulus. -/
def N (C : Center) : Nat := C.p * C.q

/-- The order of the Chebyshev index. -/
def n (C : Center) : Nat := (C.p * C.p - 1) * (C.q * C.q - 1)

/-- The public key. -/
def pk (C : Center) : Int := chebyshevMatrix C.sk C.x C.N

end Center

/-- What changes while the centre runs: its file and the attributes of the session it is in. -/
structure Server where
  people : JsonFile
  A : Option Int
  a : Option Int
  QID : Option Int
  deriving DecidableEq, Repr

/-- The centre at start-up, over the file that it finds. -/
def Server.start (people : JsonFile) : Server := ⟨people, none, none, none⟩

/-- What `user_register` returns. `d` is `None` where `e` has no inverse. -/
structure Registration where
  A : Int
  d : Option Int
  N : Nat
  x : Int
  pk : Int
  L : Int
  deriving DecidableEq, Repr

/-- `user_register`, with the `L` that it draws. -/
def Ctx.userRegister (Γ : Ctx) (C : Center) (uid pw Bio : Option Int) (L : Nat) (s : Server) :
    Except PyError (Registration × Server) := do
  let people := initializeJsonFile s.people
  let k ← Γ.cat [pw, some C.sk]
  let j ← Γ.cat [uid, pw, Bio]
  let PID ← Γ.sm3Cat [uid, some L, Bio]
  let RPW ← Γ.sm3Hash k
  let h ← Γ.sm3Hash j
  let A := Int.xor h L
  let d := modInverse C.e C.n
  let TTG := chebyshevMatrix A C.pk C.N
  let Auth ← Γ.sm3Cat [some C.sk, some RPW, some PID]
  let people ← addPerson (← Γ.str PID) (← Γ.str TTG) (← Γ.str Auth) people
  return (⟨A, d, C.N, C.x, C.pk, L⟩, { s with people })

/-- What `user_auth` returns: `-1`, `-2`, or the pair of the parameter and the pseudonym. -/
inductive AuthResult where
  | rejected
  | unknown
  | accepted (A1 QID : Int)
  deriving DecidableEq, Repr

/-- `user_auth`. The session takes the new `A` before the password is checked. -/
def Ctx.userAuth (Γ : Ctx) (C : Center) (QID QPW QA : Option Int) (HM1 : Int) (s : Server) :
    Except PyError (AuthResult × Server) := do
  let HM11 ← Γ.sm3Cat [QID, QPW, QA]
  if HM11 = HM1 then
    let PID1 := chebyshevMatrix C.e (← asInt QID) C.N
    let A1 := chebyshevMatrix C.e (← asInt QA) C.N
    let AA1 := chebyshevMatrix A1 C.pk C.N
    match ← Γ.getPersonByName (← Γ.str PID1) s.people with
    | none => return (.unknown, s)
    | some (AA, Auth) =>
      if AA1 = AA then
        let s := { s with A := some A1 }
        let PW1 := chebyshevMatrix C.e (← asInt QPW) C.N
        let RPW1 ← Γ.sm3Cat [some PW1, some C.sk]
        let Auth1 ← Γ.sm3Cat [some C.sk, some RPW1, some PID1]
        if Auth = Auth1 then return (.accepted A1 (← asInt QID), s) else return (.rejected, s)
      else return (.rejected, s)
  else return (.rejected, s)

/-- `SharedKey_Gen`, with the `a` that it draws: the reply `QID1, N1, HM2`. -/
def Ctx.sharedKeyGen (Γ : Ctx) (C : Center) (QID A : Int) (a : Nat) (s : Server) :
    Except PyError ((Int × Int × Int) × Server) := do
  let TTG := chebyshevMatrix A C.pk C.N
  let s := { s with a := some a }
  let N1 := Int.xor TTG a
  let QID1 := Int.xor QID TTG
  let s := { s with QID := some QID }
  let HM2 ← Γ.sm3Cat [some QID1, some N1]
  return ((QID1, N1, HM2), s)

/-- `SharedKey_Gen2`: `TC1, KS, QID3, HM5`, and `none` where it returns `-1`. -/
def Ctx.sharedKeyGen2 (Γ : Ctx) (C : Center) (N2 TC QID2 HM3 : Option Int) (s : Server) :
    Except PyError (Option (Int × Int × Int × Int)) := do
  let HM4 ← Γ.sm3Cat [N2, TC, QID2]
  if some HM4 = HM3 then
    let TTG := chebyshevMatrix (← attr s.A) C.pk C.N
    let b1 := Int.xor TTG (← asInt N2)
    let QID2 ← asInt QID2
    let QID := chebyshevMatrix C.e QID2 C.N
    if QID = (← attr s.QID) then
      let a ← attr s.a
      let TC ← asInt TC
      let TA := chebyshevMatrix a C.pk C.N
      let TB := chebyshevMatrix b1 C.pk C.N
      if (TA * TA + TB * TB + TC * TC) % C.N = (2 * TA * TB * TC + 1) % C.N then
        let c1 := a + b1
        let QID3 := Int.xor QID2 TTG
        let TC1 := chebyshevMatrix c1 C.pk C.N
        let KS ← Γ.sm3Cat [some a, some b1, some TTG]
        let HM5 ← Γ.sm3Cat [some TC1, some QID3]
        return some (TC1, KS, QID3, HM5)
      else return none
    else return none
  else return none

/-! ## The requests -/

/-- A decoded request: the action and the numeric fields, each of which may be absent. -/
structure Request where
  action : Option String
  fields : List (String × Int)
  deriving DecidableEq, Repr

/-- `request.get`. -/
def Request.get (request : Request) (key : String) : Option Int := request.fields.lookup key

/-- The data that a response carries besides its status, action and message. -/
inductive Payload where
  | registerAck (reg : Registration)
  | sharedKeyGenRequest (QID1 N1 HM2 : Int)
  | sharedKeyGenFinish (TC1 KS QID3 HM5 : Int)
  deriving DecidableEq, Repr

/-- A response. -/
structure Response where
  status : Nat
  action : Option String
  message : String
  payload : Option Payload
  deriving DecidableEq, Repr

/-- `register_handler`. -/
def Ctx.registerHandler (Γ : Ctx) (C : Center) (request : Request) (drawn : Nat) (s : Server) :
    Except PyError (Response × Server) := do
  let (reg, s) ← Γ.userRegister C (request.get "userid") (request.get "password") (request.get "Bio") drawn s
  return (⟨200, some "register_ack", "注册成功", some (.registerAck reg)⟩, s)

/-- `auth_request_handler`. The tag that `user_auth` checks is computed here, from the received fields. -/
def Ctx.authRequestHandler (Γ : Ctx) (C : Center) (request : Request) (drawn : Nat) (s : Server) :
    Except PyError (Response × Server) := do
  let HM1 ← Γ.sm3Cat [request.get "QID", request.get "QPW", request.get "QA"]
  match ← Γ.userAuth C (request.get "QID") (request.get "QPW") (request.get "QA") HM1 s with
  | (.rejected, s) => return (⟨400, some "SharedKey_Gen_request", "认证失败，完整性未通过", none⟩, s)
  | (.unknown, s) => return (⟨400, some "SharedKey_Gen_request", "用户不存在,PID错误", none⟩, s)
  | (.accepted AA QID, s) =>
    let ((QID1, N1, HM2), s) ← Γ.sharedKeyGen C QID AA drawn s
    return (⟨200, some "SharedKey_Gen_request", "发送共享密钥请求", some (.sharedKeyGenRequest QID1 N1 HM2)⟩, s)

/-- `SharedKey_Gen_response_handler`. It unpacks four values, which the `-1` of `SharedKey_Gen2` is not. -/
def Ctx.sharedKeyGenResponseHandler (Γ : Ctx) (C : Center) (request : Request) (s : Server) :
    Except PyError (Response × Server) := do
  match ← Γ.sharedKeyGen2 C (request.get "N2") (request.get "TC") (request.get "QID2") (request.get "HM3") s with
  | none => .error .typeError
  | some (TC1, KS, QID3, HM5) =>
    return (⟨200, some "SharedKey_Gen_Finish", "共享密钥生成成功", some (.sharedKeyGenFinish TC1 KS QID3 HM5)⟩, s)

/-- `process_request`, with the number that the centre draws while it handles the request. -/
def Ctx.processRequest (Γ : Ctx) (C : Center) (request : Request) (drawn : Nat) (s : Server) :
    Except PyError (Response × Server) :=
  if request.action = some "register" then Γ.registerHandler C request drawn s
  else if request.action = some "auth_request" then Γ.authRequestHandler C request drawn s
  else if request.action = some "SharedKey_Gen_response" then Γ.sharedKeyGenResponseHandler C request s
  else .ok (⟨400, none, "未知操作类型", none⟩, s)

/-! ## The connections -/

/-- A request as it comes in: on which connection, and with the number that the centre will draw for it. -/
structure Message where
  client : Nat
  request : Request
  drawn : Nat
  deriving DecidableEq, Repr

/-- The step of the loop in `handle_client`. The connection plays no part in it. -/
def Ctx.serve (Γ : Ctx) (C : Center) (message : Message) (s : Server) : Except PyError (Response × Server) :=
  Γ.processRequest C message.request message.drawn s

/-- `handle_client`: the requests of one connection. An exception other than a lost connection or bad JSON is not caught. -/
def Ctx.handleClient (Γ : Ctx) (C : Center) (client : Nat) (requests : List (Request × Nat)) (s : Server) :
    List (Message × Response) × Except PyError Server :=
  Machine.run (Γ.serve C) (requests.map fun (request, drawn) => ⟨client, request, drawn⟩) s

/-- The main loop: one connection after the other, over the one `authencenter`. An exception ends the server. -/
def Ctx.acceptLoop (Γ : Ctx) (C : Center) :
    Nat → List (List (Request × Nat)) → Server → List (Message × Response) × Except PyError Server
  | _, [], s => ([], .ok s)
  | client, requests :: connections, s =>
    match Γ.handleClient C client requests s with
    | (log, .error e) => (log, .error e)
    | (log, .ok s') =>
      let (rest, final) := Γ.acceptLoop C (client + 1) connections s'
      (log ++ rest, final)

end AuthVideo
