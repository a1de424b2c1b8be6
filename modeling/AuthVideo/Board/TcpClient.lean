import AuthVideo.Board.Protocol
import AuthVideo.Lib.Machine

/-!
# The client of the boards

`tcp_part.c`: the loop of `tcpclient`, which reads a message, acts on its type and sends `send_data`. The buffers are at file
level and outlive a turn and a connection. The machine takes the commands of the console and the messages one by one; a
connection that fails, or on which nothing more comes in, is one on which no message follows.
-/

namespace AuthVideo

/-- A message as `recv` delivers it: a string with fields that fit into the buffers of `sscanf`. -/
structure Received where
  text : Bytes
  nonzero : ∀ b ∈ text, b ≠ 0
  length_lt : text.length < 2048
  first_lt : ∀ t ∈ (scanned text)[0]?, t.length < 20
  fields_lt : ∀ t ∈ ((scanned text).take 8).tail, t.length < 80

/-- The variables of `tcp_part.c`, and those of `protocol.c`. -/
structure Board where
  statics : Statics
  sendData : Bytes
  first : Bytes
  second : Bytes
  third : Bytes
  forth : Bytes
  fifth : Bytes
  sixth : Bytes
  seventh : Bytes
  eighth : Bytes
  authParam : AuthParam
  shareParam : ShareParam
  deriving DecidableEq

/-- `save_parameter`. -/
def Board.saveParameter (b : Board) (recvData : Bytes) : Board :=
  let b := { b with
    first := sscanf recvData 0 b.first, second := sscanf recvData 1 b.second, third := sscanf recvData 2 b.third,
    forth := sscanf recvData 3 b.forth, fifth := sscanf recvData 4 b.fifth, sixth := sscanf recvData 5 b.sixth,
    seventh := sscanf recvData 6 b.seventh, eighth := sscanf recvData 7 b.eighth }
  { b with statics := b.statics.registerProc b.second b.third b.forth b.fifth b.sixth b.seventh b.eighth }

/-- The message with `QA`, `QPW` and `QID`. -/
def AuthParam.message (q : AuthParam) : Bytes :=
  cstr "202 " ++ uint256ToHex q.QA ++ cstr " " ++ uint256ToHex q.QPW ++ cstr " " ++ uint256ToHex q.QID

/-- The message with `N2`, `QID`, `TC` and `HM3`. -/
def ShareParam.message (q : ShareParam) : Bytes :=
  cstr "203 " ++ uint256ToHex q.N2 ++ cstr " " ++ uint256ToHex q.QID ++ cstr " " ++ uint256ToHex q.TC ++ cstr " " ++
    uint256ToHex q.HM3

/-- What a turn of the loop does: the string that it sends, the parameters and the key that are computed in it, and the outcomes
of its checks. -/
structure Output where
  sent : Option Bytes
  fresh : Option AuthParam
  key : Option Bytes
  verdicts : List Verdict
  deriving DecidableEq

/-- The state of the console: no client runs, the client waits for a message, or it is in its endless loop. -/
inductive Line where
  | idle (b : Board)
  | listening (b : Board)
  | endless

/-- The `send` at the end of a turn, which closes the connection where it returns an error. -/
def Board.send (b : Board) (ret : Int32) : Line := if ret < 0 then .idle b else .listening b

namespace Chip

variable (Γ : Chip)

/-- The case 101. -/
def case101 (recvData : Bytes) (b : Board) : Option (Output × Board) := do
  let b := b.saveParameter recvData
  let (fresh, verdicts, statics) ← Γ.authPre b.statics
  let authParam := fresh.getD b.authParam
  let b := { b with statics, authParam, sendData := authParam.message }
  return (⟨some b.sendData, fresh, none, verdicts⟩, b)

/-- The case 102. -/
def case102 (recvData : Bytes) (temp3 : UInt64) (b : Board) : Option (Output × Board) := do
  let (shareParam, verdicts, statics) ← Γ.sharedkeyGen recvData temp3 b.statics
  let b := { b with statics, shareParam, sendData := shareParam.message }
  return (⟨some b.sendData, none, none, verdicts⟩, b)

/-- The case 103, which does not come to the `send`. -/
def case103 (recvData : Bytes) (b : Board) : Option Output := do
  let (KS, verdicts, _) ← Γ.sharedkeyGen2 recvData b.statics
  return ⟨none, none, some KS, verdicts⟩

/-- A turn of the loop of `tcpclient` on a message, with the prime that it draws and what its `send` returns. -/
def turn (recvData : Bytes) (temp3 : UInt64) (ret : Int32) (b : Board) : Option (Output × Line) :=
  if recvData.head? = some 113 ∨ recvData.head? = some 81 then some (⟨none, none, none, []⟩, .idle b)
  else
    let b := { b with first := sscanf recvData 0 b.first }
    let situation := strtol b.first
    if situation = 101 then do
      let (out, b) ← Γ.case101 recvData b
      return (out, b.send ret)
    else if situation = 102 then do
      let (out, b) ← Γ.case102 recvData temp3 b
      return (out, b.send ret)
    else if situation = 103 then do
      let out ← Γ.case103 recvData b
      return (out, .endless)
    else some (⟨some b.sendData, none, none, []⟩, b.send ret)

end Chip

/-! ## Runs -/

/-- What happens at a board: a command of the console, or a message with the prime that is drawn and what `send` returns. -/
inductive BoardEvent where
  | rtRequest (userid password bio : Int32)
  | tcpclient
  | recv (m : Received) (temp3 : UInt64) (ret : Int32)

/-- Why an event has no turn. -/
inductive Stop where
  | endless
  | unavailable
  deriving DecidableEq, Repr

/-- One event. `tcpclient` blocks the console while it runs. -/
def Chip.board (Γ : Chip) : BoardEvent → Line → Except Stop (Output × Line)
  | .rtRequest userid password bio, .idle b =>
    .ok (⟨none, none, none, []⟩, .idle { b with statics := b.statics.rtRequest userid password bio })
  | .tcpclient, .idle b =>
    let b := { b with sendData := b.statics.requestSend (cstr "201") }
    .ok (⟨some b.sendData, none, none, []⟩, .listening b)
  | .recv m temp3 ret, .listening b =>
    match Γ.turn m.text temp3 ret b with
    | none => .error .endless
    | some result => .ok result
  | _, _ => .error .unavailable

/-- The variables before anything happens. -/
def Board.init : Board where
  statics :=
    { client := ⟨0, 0, 0, .zero, .zero, .zero, .zero, .zero, .zero, .zero, .zero, .zero, .zero, .zero, .zero, .zero, .zero⟩
      A := .zero, d := .zero, N := .zero, x := .zero, pk := .zero, L := .zero, N1 := .zero
      strQID1 := [], strM1 := [], strHM21 := [], QID1 := .zero, M1 := .zero, HM2 := .zero
      strrTC := [], strrQID3 := [], strrHM5 := [], TC1 := .zero, QID3 := .zero, HM5 := .zero, carry4 := 0 }
  sendData := []
  first := []
  second := []
  third := []
  forth := []
  fifth := []
  sixth := []
  seventh := []
  eighth := []
  authParam := ⟨.zero, .zero, .zero⟩
  shareParam := ⟨.zero, .zero, .zero, .zero⟩

end AuthVideo
