import AuthVideo.Cipher.ZucPy
import AuthVideo.Device
import AuthVideo.Lib.BigEndian
import AuthVideo.Lib.Receive

/-!
# The bytes of a connection

`handle_client` and the receiving half of `send_request` read the length of a message with one call of `recv` and its body with
a loop of calls. What the calls of a connection return is given by the pieces that its stream comes in. `json` is a parameter;
what it makes of a message plays no part in how the message is found in the stream.
-/

namespace AuthVideo

open Receive

/-- What `json.loads(... .decode())` can raise. The handler catches the first one only. -/
inductive LoadsError where
  | jsonDecodeError
  | other
  deriving DecidableEq, Repr

/-- The exceptions on a connection, by the statement that raises them. -/
inductive ConnError where
  | unpack
  | interrupted
  | loads (e : LoadsError)
  | handler (e : PyError)
  | pack
  deriving DecidableEq, Repr

/-- `json` as the two programs use it. -/
structure Json where
  /-- The request that a body holds. -/
  loadsRequest : Bytes → Except LoadsError Request
  /-- The response that a body holds. -/
  loadsResponse : Bytes → Except LoadsError Response
  /-- The body of a response. -/
  dumpsResponse : Response → Bytes

/-- `struct.pack('>I', len(data))` and the data. -/
def packMessage (data : Bytes) : Except ConnError Bytes :=
  if data.length < 2 ^ 32 then .ok (BigEndian.encode 4 data.length ++ data) else .error .pack

/-- `struct.unpack('>I', header)`, which takes four bytes and no others. -/
def unpackLength (header : Bytes) : Except ConnError Nat :=
  if header.length = 4 then .ok (BigEndian.decode header) else .error .unpack

/-! ## The centre -/

/-- A message that `handle_client` has answered, with the bytes of the answer. -/
structure Served where
  message : Message
  response : Response
  sent : Bytes
  deriving DecidableEq, Repr

/-- The length and the body of a message. Where the stream ends within the body, an empty chunk raises `ConnectionError`. -/
def recvMessage (header : Bytes) (ps : List Bytes) : Except ConnError (Bytes × List Bytes) :=
  match unpackLength header with
  | .error e => .error e
  | .ok msgLen =>
    match recvLoop msgLen [] ps with
    | none => .error .interrupted
    | some result => .ok result

/-- What `handle_client` does with a body. -/
def Ctx.answerBody (Γ : Ctx) (C : Center) (J : Json) (client drawn : Nat) (received : Bytes) (s : Server) :
    Except ConnError (Served × Server) := do
  let request ← (J.loadsRequest received).mapError .loads
  let (response, s) ← (Γ.processRequest C request drawn s).mapError .handler
  let sent ← packMessage (J.dumpsResponse response)
  return (⟨⟨client, request, drawn⟩, response, sent⟩, s)

/-- The pieces left by a message are fewer. -/
theorem total_recvMessage {ps : List Bytes} {result : Bytes × List Bytes} (hne : (recv 4 ps).1 ≠ [])
    (h : recvMessage (recv 4 ps).1 (recv 4 ps).2 = .ok result) : total result.2 < total ps := by
  have hheader := total_recv 4 ps
  have hpos := List.length_pos_iff.mpr hne
  unfold recvMessage at h
  split at h
  · cases h
  · split at h
    · cases h
    · rename_i hloop
      cases h
      have hle := recvLoop_total hloop
      omega

/-- `handle_client` on the pieces of a connection, from its `n`-th message on. Bad JSON is caught and ends the loop, as the end of
the stream does; whatever else is raised is not caught. -/
def Ctx.handleClientLoop (Γ : Ctx) (C : Center) (J : Json) (client : Nat) (draw : Nat → Nat) (n : Nat) (ps : List Bytes)
    (s : Server) : List Served × Except ConnError Server :=
  if _hclosed : (recv 4 ps).1 = [] then ([], .ok s)
  else
    match _hmessage : recvMessage (recv 4 ps).1 (recv 4 ps).2 with
    | .error e => ([], .error e)
    | .ok (received, ps') =>
      match Γ.answerBody C J client (draw n) received s with
      | .error (.loads .jsonDecodeError) => ([], .ok s)
      | .error e => ([], .error e)
      | .ok (served, s') =>
        let (log, final) := Γ.handleClientLoop C J client draw (n + 1) ps' s'
        (served :: log, final)
termination_by total ps
decreasing_by exact total_recvMessage _hclosed _hmessage

/-! ## The device -/

/-- The receiving half of `send_request`: the response, or `none` where the stream ends within the body and the loop goes on
forever. -/
def receiveResponse (J : Json) (ps : List Bytes) : Option (Except ConnError Response × List Bytes) :=
  match unpackLength (recv 4 ps).1 with
  | .error e => some (.error e, (recv 4 ps).2)
  | .ok respLen => (recvLoop respLen [] (recv 4 ps).2).map fun (response, ps) => ((J.loadsResponse response).mapError .loads, ps)

end AuthVideo
