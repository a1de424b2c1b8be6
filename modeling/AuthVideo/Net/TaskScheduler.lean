import AuthVideo.Lib.Machine
import AuthVideo.Lib.Ring
import Mathlib.Data.List.Basic

/-!
# The trigger events of a scheduler

`TaskScheduler` takes events from any thread and runs them on its own. The queue between them is a `RingBuffer`: the callers
take turns by a mutex, and the loop takes no lock at all. A step of the model is one access to what the threads share, so the
steps of a `Push` and of a `Pop` may come in any order. A thread that finds the queue empty sleeps in `epoll_wait` until there
is something to read in the pipe.
-/

namespace AuthVideo.Xop

/-! ## The ring buffer -/

/-- `RingBuffer`. A slot that holds no event yet, or whose event was moved out, is `none`. -/
structure RingBuffer (α : Type*) where
  capacity : ℕ
  putPos : ℕ
  getPos : ℕ
  numDatas : ℕ
  buffer : List (Option α)
  putPos_lt : putPos < capacity
  getPos_lt : getPos < capacity
  length_buffer : buffer.length = capacity

namespace RingBuffer

variable {α : Type*}

/-- The constructor. -/
def new (capacity : ℕ) (h : 0 < capacity) : RingBuffer α :=
  ⟨capacity, 0, 0, 0, List.replicate capacity none, h, h, List.length_replicate⟩

/-- `buffer_[put_pos_] = data`. -/
def write (data : α) (r : RingBuffer α) : RingBuffer α :=
  { r with buffer := r.buffer.set r.putPos (some data), length_buffer := by rw [List.length_set, r.length_buffer] }

/-- `Add(put_pos_)`. -/
def addPut (r : RingBuffer α) : RingBuffer α :=
  { r with putPos := Ring.next r.capacity r.putPos, putPos_lt := Ring.next_lt r.putPos_lt }

/-- `num_datas_++`. -/
def countUp (r : RingBuffer α) : RingBuffer α := { r with numDatas := r.numDatas + 1 }

/-- `data = std::move(buffer_[get_pos_])`: what is in the slot. -/
def front (r : RingBuffer α) : Option α := (r.buffer[r.getPos]?).join

/-- `data = std::move(buffer_[get_pos_])`: the buffer without it. -/
def moveOut (r : RingBuffer α) : RingBuffer α :=
  { r with buffer := r.buffer.set r.getPos none, length_buffer := by rw [List.length_set, r.length_buffer] }

/-- `Add(get_pos_)`. -/
def addGet (r : RingBuffer α) : RingBuffer α :=
  { r with getPos := Ring.next r.capacity r.getPos, getPos_lt := Ring.next_lt r.getPos_lt }

/-- `num_datas_--`. -/
def countDown (r : RingBuffer α) : RingBuffer α := { r with numDatas := r.numDatas - 1 }

/-- The events in the buffer, the oldest one first. -/
def contents (r : RingBuffer α) : List α := (Ring.window r.buffer r.getPos r.numDatas).filterMap Option.join

end RingBuffer

/-! ## The threads -/

/-- `kMaxTriggetEvents`. -/
def kMaxTriggetEvents : ℕ := 50000

/-- What fits into a pipe. -/
def pipeSize : ℕ := 65536

/-- Where the call of `AddTriggerEvent` stands that holds the mutex: the next thing it does. -/
inductive PushAt (α : Type*) where
  | test (callback : α)
  | write (callback : α)
  | addPut
  | countUp
  | notify
  deriving DecidableEq, Repr

/-- Where the loop of `Start` stands: the next thing it does. -/
inductive LoopAt (α : Type*) where
  | clear
  | shutdownTest
  | popTest
  | moveOut
  | addGet (callback : Option α)
  | countDown (callback : Option α)
  | call (callback : Option α)
  | sizeTest
  | wait
  | wake
  | stopped
  deriving DecidableEq, Repr

/-- A scheduler and the threads that use it. -/
structure TaskScheduler (α : Type*) where
  /-- `trigger_events_`. -/
  triggerEvents : RingBuffer α
  /-- The calls of `AddTriggerEvent` that have seen a `Size()` below the limit and wait for the mutex. -/
  waiting : List (ℕ × α)
  /-- The call that holds the mutex. -/
  holder : Option (ℕ × PushAt α)
  loop : LoopAt α
  /-- The bytes in `wakeup_pipe_`. -/
  wakeupPipe : ℕ
  isShutdown : Bool
  /-- The calls of `Stop` that have yet to write into the pipe. -/
  stopping : ℕ

/-- The steps of the threads. -/
inductive TaskStep (α : Type*) where
  /-- A thread calls `AddTriggerEvent`, which reads `Size()`. -/
  | add (thread : ℕ) (callback : α)
  /-- A waiting call locks the mutex. -/
  | lock (thread : ℕ)
  /-- The next thing in `AddTriggerEvent`, with the mutex held. -/
  | push
  /-- The next thing in `Start`. Where it waits, `woken` says whether `epoll_wait` reports the pipe. -/
  | loop (woken : Bool)
  /-- `Stop` sets the flag. -/
  | stop
  /-- `Stop` writes into the pipe. -/
  | stopWrite
  deriving DecidableEq, Repr

/-- What there is to see of a step. -/
inductive TaskEvent (α : Type*) where
  | silent
  /-- `AddTriggerEvent` returns false. -/
  | refused (thread : ℕ) (callback : α)
  /-- `Push` returns false, which `AddTriggerEvent` does not look at. -/
  | lost (thread : ℕ) (callback : α)
  /-- `Push` has stored an event. -/
  | pushed (thread : ℕ) (callback : α)
  /-- `AddTriggerEvent` returns true. -/
  | returned (thread : ℕ)
  /-- The loop calls an event. -/
  | ran (callback : α)
  deriving DecidableEq, Repr

/-- Why a step is not made. -/
inductive TaskStuck where
  /-- The thread does not stand there, or has to wait. -/
  | blocked
  /-- `std::bad_function_call`, which ends the program. -/
  | badFunctionCall
  deriving DecidableEq, Repr

namespace TaskScheduler

variable {α : Type*}

/-- The constructor. The thread of the loop is about to call `Start`. -/
def start : TaskScheduler α where
  triggerEvents := .new kMaxTriggetEvents (by unfold kMaxTriggetEvents; omega)
  waiting := []
  holder := none
  loop := .clear
  wakeupPipe := 0
  isShutdown := false
  stopping := 0

/-- `wakeup_pipe_->Write`, which fails where the pipe is full. -/
def writePipe (s : TaskScheduler α) : TaskScheduler α := { s with wakeupPipe := min pipeSize (s.wakeupPipe + 1) }

/-- The next thing that the call with the mutex does. -/
def pushStep (thread : ℕ) : PushAt α → TaskScheduler α → TaskEvent α × TaskScheduler α
  | .test callback, s =>
    if s.triggerEvents.numDatas < s.triggerEvents.capacity then (.silent, { s with holder := some (thread, .write callback) })
    else (.lost thread callback, { s with holder := some (thread, .notify) })
  | .write callback, s =>
    (.pushed thread callback, { s with triggerEvents := s.triggerEvents.write callback, holder := some (thread, .addPut) })
  | .addPut, s => (.silent, { s with triggerEvents := s.triggerEvents.addPut, holder := some (thread, .countUp) })
  | .countUp, s => (.silent, { s with triggerEvents := s.triggerEvents.countUp, holder := some (thread, .notify) })
  | .notify, s => (.returned thread, { s.writePipe with holder := none })

/-- The next thing that the loop does. -/
def loopStep (woken : Bool) (s : TaskScheduler α) : Except TaskStuck (TaskEvent α × TaskScheduler α) :=
  match s.loop with
  -- `is_shutdown_ = false`, also where `Stop` was called before.
  | .clear => .ok (.silent, { s with isShutdown := false, loop := .shutdownTest })
  | .shutdownTest => .ok (.silent, { s with loop := if s.isShutdown then .stopped else .popTest })
  | .popTest => .ok (.silent, { s with loop := if 0 < s.triggerEvents.numDatas then .moveOut else .sizeTest })
  | .moveOut =>
    .ok (.silent, { s with triggerEvents := s.triggerEvents.moveOut, loop := .addGet s.triggerEvents.front })
  | .addGet callback => .ok (.silent, { s with triggerEvents := s.triggerEvents.addGet, loop := .countDown callback })
  | .countDown callback => .ok (.silent, { s with triggerEvents := s.triggerEvents.countDown, loop := .call callback })
  | .call none => .error .badFunctionCall
  | .call (some callback) => .ok (.ran callback, { s with loop := .sizeTest })
  | .sizeTest => .ok (.silent, { s with loop := if 0 < s.triggerEvents.numDatas then .popTest else .wait })
  | .wait =>
    -- Another channel or a timer ends the wait as well, with what there is in the pipe left for a later call.
    if woken then
      if 0 < s.wakeupPipe then .ok (.silent, { s with loop := .wake }) else .error .blocked
    else .ok (.silent, { s with loop := .shutdownTest })
  | .wake =>
    if 0 < s.wakeupPipe then .ok (.silent, { s with wakeupPipe := s.wakeupPipe - 10 })
    else .ok (.silent, { s with loop := .shutdownTest })
  | .stopped => .error .blocked

/-- A thread is in no other call of `AddTriggerEvent`. -/
def Free (thread : ℕ) (s : TaskScheduler α) : Prop :=
  (∀ call ∈ s.waiting, call.1 ≠ thread) ∧ ∀ call ∈ s.holder, call.1 ≠ thread

instance (thread : ℕ) (s : TaskScheduler α) : Decidable (s.Free thread) :=
  inferInstanceAs (Decidable ((∀ call ∈ s.waiting, call.1 ≠ thread) ∧ ∀ call ∈ s.holder, call.1 ≠ thread))

/-- One step of one thread. -/
def step : TaskStep α → TaskScheduler α → Except TaskStuck (TaskEvent α × TaskScheduler α)
  | .add thread callback, s =>
    if s.Free thread then
      if s.triggerEvents.numDatas < kMaxTriggetEvents then
        .ok (.silent, { s with waiting := s.waiting ++ [(thread, callback)] })
      else .ok (.refused thread callback, s)
    else .error .blocked
  | .lock thread, s =>
    match s.holder, s.waiting.find? (·.1 = thread) with
    | none, some (_, callback) =>
      .ok (.silent, { s with waiting := s.waiting.eraseP (·.1 = thread), holder := some (thread, .test callback) })
    | _, _ => .error .blocked
  | .push, s =>
    match s.holder with
    | none => .error .blocked
    | some (thread, pc) => .ok (pushStep thread pc s)
  | .loop woken, s => loopStep woken s
  | .stop, s => .ok (.silent, { s with isShutdown := true, stopping := s.stopping + 1 })
  | .stopWrite, s => if 0 < s.stopping then .ok (.silent, { s.writePipe with stopping := s.stopping - 1 }) else .error .blocked

/-- The log of a run from the start, and where it ends. -/
def run (steps : List (TaskStep α)) : List (TaskStep α × TaskEvent α) × Except TaskStuck (TaskScheduler α) :=
  Machine.run step steps start

/-- The calls that have seen a `Size()` below the limit and have not counted their event yet. -/
def pending (s : TaskScheduler α) : ℕ :=
  s.waiting.length + match s.holder with
    | none | some (_, .notify) => 0
    | some _ => 1

/-- No thread is between storing an event and counting it, or between taking one and calling it. -/
def Quiet (s : TaskScheduler α) : Prop :=
  (∀ call ∈ s.holder, call.2 ≠ .addPut ∧ call.2 ≠ .countUp) ∧
    ∀ callback, s.loop ≠ .addGet callback ∧ s.loop ≠ .countDown callback ∧ s.loop ≠ .call callback

end TaskScheduler

/-! ## Logs -/

/-- The events that were stored, in this order. -/
def pushedOf {α : Type*} (log : List (TaskStep α × TaskEvent α)) : List α :=
  log.filterMap fun entry => match entry.2 with
    | .pushed _ callback => some callback
    | _ => none

/-- The events that the loop called, in this order. -/
def ranOf {α : Type*} (log : List (TaskStep α × TaskEvent α)) : List α :=
  log.filterMap fun entry => match entry.2 with
    | .ran callback => some callback
    | _ => none

/-- The events that were not stored although `AddTriggerEvent` returns true. -/
def lostOf {α : Type*} (log : List (TaskStep α × TaskEvent α)) : List α :=
  log.filterMap fun entry => match entry.2 with
    | .lost _ callback => some callback
    | _ => none

end AuthVideo.Xop
