import AuthVideo.Lib.Machine
import AuthVideo.Cipher.ZucPy

/-!
# The sending half of a connection

`TcpConnection` keeps what the socket does not take yet in a `BufferWriter` and asks for `EPOLLOUT` as long as something is left.
`Send` and the handlers share a mutex, but `HandleWrite` only tries to take it and returns where it is held, and the `Close` that
`Disconnect` hands to the scheduler runs without it. A step of the model is the taking of the mutex or what is done with it held,
so the sections of several threads may follow each other in any order.
-/

namespace AuthVideo.Xop

/-! ## The writer -/

/-- A `Packet` of `BufferWriter`. Something of it is left to write. -/
structure OutPacket where
  data : Bytes
  writeIndex : ℕ
  index_lt : writeIndex < data.length
  deriving DecidableEq, Repr

/-- What is left of a packet. -/
def OutPacket.rest (pkt : OutPacket) : Bytes := pkt.data.drop pkt.writeIndex

/-- `BufferWriter`, with the capacity that `TcpConnection` gives it. -/
abbrev BufferWriter := List OutPacket

/-- `max_queue_length_`. -/
def maxQueueLength : ℕ := 500

/-- `Append`: the queue with the packet, or `none` where it returns false. -/
def BufferWriter.append (data : Bytes) (index : ℕ) (buffer : BufferWriter) : Option BufferWriter :=
  if h : index < data.length then
    if maxQueueLength ≤ buffer.length then none else some (buffer ++ [⟨data, index, h⟩])
  else none

/-- What `::send` answers: it takes a part of what it is given, it would block, or it fails. -/
inductive SendAnswer where
  | took (more : ℕ)
  | again
  | failed
  deriving DecidableEq, Repr

/-- How much of a packet `::send` takes: never nothing, and never more than there is. -/
def OutPacket.taken (pkt : OutPacket) (more : ℕ) : ℕ := min (more + 1) (pkt.data.length - pkt.writeIndex)

/-- The loop of `BufferWriter::Send`, with the answers of `::send` from the `n`-th on: the bytes that go out, the packets left, and
whether it returns a negative number. -/
def BufferWriter.send (answers : ℕ → SendAnswer) : ℕ → BufferWriter → Bytes × BufferWriter × Bool
  | _, [] => ([], [], false)
  | n, pkt :: buffer =>
    match answers n with
    | .took more =>
      if h : pkt.writeIndex + pkt.taken more < pkt.data.length then
        (pkt.rest.take (pkt.taken more), ⟨pkt.data, pkt.writeIndex + pkt.taken more, h⟩ :: buffer, false)
      else
        let (sent, left, failed) := send answers (n + 1) buffer
        (pkt.rest ++ sent, left, failed)
    | .again => ([], pkt :: buffer, false)
    | .failed => ([], pkt :: buffer, true)

/-- The bytes of the packets. -/
def BufferWriter.pending (buffer : BufferWriter) : Bytes := (buffer.map OutPacket.rest).flatten

/-! ## The connection -/

/-- What a thread does with the mutex held. -/
inductive Section where
  /-- `Send` appends. -/
  | append (data : Bytes)
  /-- `HandleWrite`. -/
  | write
  /-- `HandleRead`, `HandleClose` or `HandleError`, or `Disconnect` while it posts its `Close`. -/
  | other
  deriving DecidableEq, Repr

/-- A connection and the threads that use it. -/
structure TcpConnection where
  writeBuffer : BufferWriter
  isClosed : Bool
  /-- `channel_->IsWriting()`. -/
  writing : Bool
  /-- The scheduler watches the channel. -/
  watched : Bool
  mutex : Option Section
  /-- The calls of `Send` that have found the connection open and wait for the mutex. -/
  sending : List Bytes
  /-- The calls of `HandleWrite` that are about to look at `is_closed_`. -/
  looking : ℕ
  /-- The calls of `HandleWrite` that have found the connection open and are about to try the mutex. -/
  trying : ℕ
  /-- The calls of `Close` that `Disconnect` has posted and the scheduler has yet to run. -/
  closing : ℕ

/-- The steps of the threads. -/
inductive TcpStep where
  /-- `Send` is called and looks at `is_closed_`. -/
  | send (data : Bytes)
  /-- The first waiting call of `Send`, or the one at `i`, locks the mutex. -/
  | lockAppend (i : ℕ)
  /-- It appends and unlocks. -/
  | append
  /-- The scheduler reports `EPOLLOUT`. -/
  | writable
  /-- `HandleWrite` looks at `is_closed_`. -/
  | look
  /-- `HandleWrite` tries the mutex. -/
  | tryLock
  /-- `HandleWrite` writes, with these answers of `::send`, and unlocks. -/
  | write (answers : ℕ → SendAnswer)
  /-- Another handler locks the mutex. -/
  | lockOther
  /-- It unlocks, and may have closed the connection before. -/
  | unlockOther (close : Bool)
  /-- It unlocks as a `Disconnect` that has posted a `Close`. -/
  | unlockDisconnect
  /-- The scheduler runs a posted `Close`, which takes no mutex. -/
  | close

/-- What there is to see of a step. -/
inductive TcpEvent where
  | silent
  /-- A message is in the queue. -/
  | accepted (data : Bytes)
  /-- A message is dropped, as it is empty or the queue is full. -/
  | dropped (data : Bytes)
  /-- Bytes go out. -/
  | wrote (data : Bytes)
  /-- The mutex was held by this section. -/
  | busy (held : Section)
  deriving DecidableEq, Repr

namespace TcpConnection

/-- The constructor. -/
def new : TcpConnection := ⟨[], false, false, true, none, [], 0, 0, 0⟩

/-- `Close`. -/
def close (c : TcpConnection) : TcpConnection :=
  if c.isClosed then c else { c with isClosed := true, watched := false }

/-- The end of `HandleWrite`: the interest in `EPOLLOUT` follows from what is left. -/
def updateWriting (c : TcpConnection) : TcpConnection :=
  if c.writeBuffer.isEmpty then
    if c.writing then { c with writing := false, watched := true } else c
  else if !c.writing then { c with writing := true, watched := true } else c

/-- The section of `HandleWrite`. -/
def handleWrite (answers : ℕ → SendAnswer) (c : TcpConnection) : Bytes × TcpConnection :=
  let (sent, left, failed) := c.writeBuffer.send answers 0
  let c := { c with writeBuffer := left }
  (sent, if failed then c.close else c.updateWriting)

/-- One step of one thread, or `none` where no thread can make it. -/
def step : TcpStep → TcpConnection → Except Unit (TcpEvent × TcpConnection)
  | .send data, c => .ok (.silent, if c.isClosed then c else { c with sending := c.sending ++ [data] })
  | .lockAppend i, c =>
    match c.mutex, c.sending[i]? with
    | none, some data => .ok (.silent, { c with mutex := some (.append data), sending := c.sending.eraseIdx i })
    | _, _ => .error ()
  | .append, c =>
    match c.mutex with
    | some (.append data) =>
      let c := { c with mutex := none, looking := c.looking + 1 }
      match c.writeBuffer.append data 0 with
      | some writeBuffer => .ok (.accepted data, { c with writeBuffer })
      | none => .ok (.dropped data, c)
    | _ => .error ()
  | .writable, c => if c.watched && c.writing then .ok (.silent, { c with looking := c.looking + 1 }) else .error ()
  | .look, c =>
    if 0 < c.looking then
      .ok (.silent, { c with looking := c.looking - 1, trying := if c.isClosed then c.trying else c.trying + 1 })
    else .error ()
  | .tryLock, c =>
    if 0 < c.trying then
      let c := { c with trying := c.trying - 1 }
      match c.mutex with
      | none => .ok (.silent, { c with mutex := some .write })
      | some held => .ok (.busy held, c)
    else .error ()
  | .write answers, c =>
    if c.mutex = some .write then
      let (sent, c) := c.handleWrite answers
      .ok (.wrote sent, { c with mutex := none })
    else .error ()
  | .lockOther, c => if c.mutex = none then .ok (.silent, { c with mutex := some .other }) else .error ()
  | .unlockOther close, c =>
    if c.mutex = some .other then
      .ok (.silent, { (if close then c.close else c) with mutex := none })
    else .error ()
  | .unlockDisconnect, c =>
    if c.mutex = some .other then .ok (.silent, { c with mutex := none, closing := c.closing + 1 }) else .error ()
  | .close, c => if 0 < c.closing then .ok (.silent, { c.close with closing := c.closing - 1 }) else .error ()

/-- The log of a run of a new connection, and where it ends. -/
def run (steps : List TcpStep) : List (TcpStep × TcpEvent) × Except Unit TcpConnection := Machine.run step steps new

/-- No thread is in the middle of `Send` or `HandleWrite`. -/
def Quiet (c : TcpConnection) : Prop := c.mutex = none ∧ c.sending = [] ∧ c.looking = 0 ∧ c.trying = 0

end TcpConnection

/-! ## Logs -/

/-- The messages that were taken into the queue, one after the other. -/
def acceptedOf (log : List (TcpStep × TcpEvent)) : Bytes :=
  (log.map fun entry => match entry.2 with
    | .accepted data => data
    | _ => []).flatten

/-- The bytes that went out. -/
def wroteOf (log : List (TcpStep × TcpEvent)) : Bytes :=
  (log.map fun entry => match entry.2 with
    | .wrote data => data
    | _ => []).flatten

end AuthVideo.Xop
