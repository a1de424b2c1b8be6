import AuthVideo.Net.TaskScheduler

/-!
# The queue between the threads and the loop

While a `Push` or a `Pop` is under way, the indices and the counter of the ring buffer run behind its slots. `Queue` says by how
much, for every place at which the two sides can stand; one step of either side keeps it.
-/

namespace AuthVideo.Xop

open Ring

variable {α : Type*}

/-! ## The ring buffer alone -/

namespace RingBuffer

@[simp] theorem capacity_write (r : RingBuffer α) (x : α) : (r.write x).capacity = r.capacity := rfl
@[simp] theorem capacity_moveOut (r : RingBuffer α) : r.moveOut.capacity = r.capacity := rfl
@[simp] theorem capacity_addPut (r : RingBuffer α) : r.addPut.capacity = r.capacity := rfl
@[simp] theorem capacity_addGet (r : RingBuffer α) : r.addGet.capacity = r.capacity := rfl
@[simp] theorem capacity_countUp (r : RingBuffer α) : r.countUp.capacity = r.capacity := rfl
@[simp] theorem capacity_countDown (r : RingBuffer α) : r.countDown.capacity = r.capacity := rfl

theorem capacity_pos (r : RingBuffer α) : 0 < r.capacity := Nat.zero_lt_of_lt r.putPos_lt

/-- The events in the buffer are those of the window that it counts. -/
theorem contents_eq {r : RingBuffer α} {q : List α} (hq : Holds r.buffer r.getPos (q.map some)) (hcount : q.length = r.numDatas) :
    r.contents = q := by
  unfold contents
  have hwindow := hq.window
  rw [List.length_map, hcount] at hwindow
  rw [hwindow, List.filterMap_map, List.filterMap_map]
  exact List.filterMap_some

end RingBuffer

/-! ## Both sides at work -/

namespace TaskScheduler

/-- How far `put_pos_` is behind. -/
def putLag : Option (ℕ × PushAt α) → ℕ
  | some (_, .addPut) => 1
  | _ => 0

/-- The event that is stored and not counted. -/
def putOwed : Option (ℕ × PushAt α) → ℕ
  | some (_, .addPut) | some (_, .countUp) => 1
  | _ => 0

/-- The place that the call with the mutex has found free. -/
def claimed : Option (ℕ × PushAt α) → ℕ
  | some (_, .write _) | some (_, .addPut) | some (_, .countUp) => 1
  | _ => 0

/-- How far `get_pos_` is behind. -/
def getLag : LoopAt α → ℕ
  | .addGet _ => 1
  | _ => 0

/-- The event that is taken and still counted. -/
def getOwed : LoopAt α → ℕ
  | .addGet _ | .countDown _ => 1
  | _ => 0

/-- The event that the loop has found. -/
def wanted : LoopAt α → ℕ
  | .moveOut | .addGet _ | .countDown _ => 1
  | _ => 0

/-- The variable `callback` of `HandleTriggerEvent`, between `Pop` and the call. -/
def hand : LoopAt α → List (Option α)
  | .addGet callback | .countDown callback | .call callback => [callback]
  | _ => []

/-- `q` is in the queue, wherever the two sides stand. -/
structure Queue (s : TaskScheduler α) (q : List α) : Prop where
  holds : Holds s.triggerEvents.buffer (s.triggerEvents.getPos + getLag s.loop) (q.map some)
  put : (s.triggerEvents.putPos + putLag s.holder) % s.triggerEvents.capacity =
    (s.triggerEvents.getPos + getLag s.loop + q.length) % s.triggerEvents.capacity
  count : q.length + getOwed s.loop = s.triggerEvents.numDatas + putOwed s.holder
  room : s.triggerEvents.numDatas + claimed s.holder ≤ s.triggerEvents.capacity
  want : wanted s.loop ≤ s.triggerEvents.numDatas

/-- At the start the queue is empty. -/
theorem queue_start : Queue (start : TaskScheduler α) [] where
  holds := holds_nil _ _
  put := rfl
  count := rfl
  room := Nat.zero_le _
  want := Nat.zero_le _

namespace Queue

variable {s : TaskScheduler α} {q : List α} {thread : ℕ} {callback : α}

/-- Who waits and what is in the pipe does not matter to the queue. -/
theorem of_eq {s' : TaskScheduler α} (h : Queue s q) (hring : s'.triggerEvents = s.triggerEvents) (hholder : s'.holder = s.holder)
    (hloop : s'.loop = s.loop) : Queue s' q := by
  obtain ⟨hholds, hput, hcount, hroom, hwant⟩ := h
  constructor <;> simpa only [hring, hholder, hloop]

/-- Before a slot is written it holds no event of the queue, and the queue does not fill the buffer. -/
theorem length_lt (h : Queue s q) (hholder : s.holder = some (thread, .write callback)) :
    q.length < s.triggerEvents.buffer.length := by
  have hcount := h.count
  have hroom := h.room
  simp only [hholder, putOwed, claimed] at hcount hroom
  rw [s.triggerEvents.length_buffer]
  omega

/-- `Push` writes behind the last event. -/
theorem write (h : Queue s q) (hholder : s.holder = some (thread, .write callback)) :
    Queue { s with triggerEvents := s.triggerEvents.write callback, holder := some (thread, .addPut) } (q ++ [callback]) := by
  have hlen := h.length_lt hholder
  obtain ⟨hholds, hput, hcount, hroom, hwant⟩ := h
  simp only [hholder, putLag, putOwed, claimed] at hput hcount hroom
  have hslot : s.triggerEvents.putPos = (s.triggerEvents.getPos + getLag s.loop + (q.map some).length) %
      s.triggerEvents.buffer.length := by
    rw [List.length_map, s.triggerEvents.length_buffer, ← hput, Nat.add_zero, Nat.mod_eq_of_lt s.triggerEvents.putPos_lt]
  refine ⟨?_, ?_, ?_, ?_, hwant⟩
  · have hgrown := hholds.push (x := some callback) (by rwa [List.length_map])
    rw [← hslot] at hgrown
    simpa [RingBuffer.write] using hgrown
  · simp only [RingBuffer.write, putLag, List.length_append, List.length_singleton]
    rw [← Nat.add_assoc]
    exact Nat.ModEq.add_right 1 hput
  · simp only [RingBuffer.write, putOwed, List.length_append, List.length_singleton]
    omega
  · simpa [RingBuffer.write, claimed] using hroom

/-- `Add(put_pos_)` catches up. -/
theorem addPut (h : Queue s q) (hholder : s.holder = some (thread, .addPut)) :
    Queue { s with triggerEvents := s.triggerEvents.addPut, holder := some (thread, .countUp) } q := by
  obtain ⟨hholds, hput, hcount, hroom, hwant⟩ := h
  simp only [hholder, putLag, putOwed, claimed] at hput hcount hroom
  refine ⟨hholds, ?_, hcount, hroom, hwant⟩
  simp only [RingBuffer.addPut, putLag, next_eq s.triggerEvents.putPos_lt, Nat.add_zero, Nat.mod_mod]
  exact hput

/-- The counter catches up with a stored event. -/
theorem countUp (h : Queue s q) (hholder : s.holder = some (thread, .countUp)) :
    Queue { s with triggerEvents := s.triggerEvents.countUp, holder := some (thread, .notify) } q := by
  obtain ⟨hholds, hput, hcount, hroom, hwant⟩ := h
  simp only [hholder, putLag, putOwed, claimed] at hput hcount hroom
  refine ⟨hholds, hput, hcount, hroom, ?_⟩
  exact Nat.le_succ_of_le hwant

/-- The loop takes the first event, which is there. -/
theorem moveOut (h : Queue s q) (hloop : s.loop = .moveOut) :
    ∃ callback rest, q = callback :: rest ∧ s.triggerEvents.front = some callback ∧
      Queue { s with triggerEvents := s.triggerEvents.moveOut, loop := .addGet (some callback) } rest := by
  obtain ⟨hholds, hput, hcount, hroom, hwant⟩ := h
  simp only [hloop, getLag, getOwed, wanted, Nat.add_zero] at hholds hput hcount hwant
  cases q with
  | nil =>
    rw [List.length_nil] at hcount
    omega
  | cons callback rest =>
    have hget : s.triggerEvents.getPos % s.triggerEvents.buffer.length = s.triggerEvents.getPos := by
      rw [s.triggerEvents.length_buffer, Nat.mod_eq_of_lt s.triggerEvents.getPos_lt]
    have hlen : (rest.map some).length < s.triggerEvents.buffer.length := by
      have hle := hholds.1
      simp only [List.length_map, List.length_cons] at hle ⊢
      omega
    have hfront := hholds.head
    rw [hget] at hfront
    refine ⟨callback, rest, rfl, by simp [RingBuffer.front, hfront], ?_, ?_, ?_, hroom, hwant⟩
    · have hrest := hholds.tail.set_before (y := none) hlen
      rw [hget] at hrest
      exact hrest
    · simp only [RingBuffer.moveOut, getLag]
      rw [hput, List.length_cons]
      congr 1
      omega
    · simp only [RingBuffer.moveOut, getOwed]
      rw [← hcount, List.length_cons]

/-- `Add(get_pos_)` catches up. -/
theorem addGet {taken : Option α} (h : Queue s q) (hloop : s.loop = .addGet taken) :
    Queue { s with triggerEvents := s.triggerEvents.addGet, loop := .countDown taken } q := by
  obtain ⟨hholds, hput, hcount, hroom, hwant⟩ := h
  simp only [hloop, getLag, getOwed, wanted] at hholds hput hcount hwant
  refine ⟨?_, ?_, hcount, hroom, hwant⟩
  · simp only [RingBuffer.addGet, getLag, next_eq s.triggerEvents.getPos_lt, Nat.add_zero]
    rw [← s.triggerEvents.length_buffer]
    exact holds_mod.mpr hholds
  · simp only [RingBuffer.addGet, getLag, next_eq s.triggerEvents.getPos_lt, Nat.add_zero, Nat.mod_add_mod]
    exact hput

/-- The counter catches up with a taken event. -/
theorem countDown {taken : Option α} (h : Queue s q) (hloop : s.loop = .countDown taken) :
    Queue { s with triggerEvents := s.triggerEvents.countDown, loop := .call taken } q := by
  obtain ⟨hholds, hput, hcount, hroom, hwant⟩ := h
  simp only [hloop, getLag, getOwed, wanted] at hholds hput hcount hwant
  refine ⟨hholds, hput, ?_, ?_, Nat.zero_le _⟩
  · simp only [RingBuffer.countDown, getOwed]
    omega
  · simp only [RingBuffer.countDown]
    omega

end Queue

/-- What the step of a call with the mutex does to the queue: the event that it stores, if any, comes last. -/
theorem queue_pushStep {s s' : TaskScheduler α} {q : List α} {thread : ℕ} {pc : PushAt α} {event : TaskEvent α} (h : Queue s q)
    (hholder : s.holder = some (thread, pc)) (hstep : pushStep thread pc s = (event, s')) (i : TaskStep α) :
    Queue s' (q ++ pushedOf [(i, event)]) ∧ s'.loop = s.loop ∧ ranOf [(i, event)] = [] := by
  obtain ⟨hholds, hput, hcount, hroom, hwant⟩ := id h
  cases pc with
  | test callback =>
    simp only [hholder, putLag, putOwed, claimed] at hput hcount hroom
    simp only [pushStep] at hstep
    split at hstep
    · rename_i hlt
      cases hstep
      refine ⟨?_, rfl, rfl⟩
      change Queue _ (q ++ [])
      rw [List.append_nil]
      exact ⟨hholds, hput, hcount, hlt, hwant⟩
    · cases hstep
      refine ⟨?_, rfl, rfl⟩
      change Queue _ (q ++ [])
      rw [List.append_nil]
      exact ⟨hholds, hput, hcount, hroom, hwant⟩
  | write callback =>
    cases hstep
    exact ⟨h.write hholder, rfl, rfl⟩
  | addPut =>
    cases hstep
    refine ⟨?_, rfl, rfl⟩
    change Queue _ (q ++ [])
    rw [List.append_nil]
    exact h.addPut hholder
  | countUp =>
    cases hstep
    refine ⟨?_, rfl, rfl⟩
    change Queue _ (q ++ [])
    rw [List.append_nil]
    exact h.countUp hholder
  | notify =>
    simp only [hholder, putLag, putOwed, claimed] at hput hcount hroom
    cases hstep
    refine ⟨?_, rfl, rfl⟩
    change Queue _ (q ++ [])
    rw [List.append_nil]
    exact ⟨hholds, hput, hcount, hroom, hwant⟩

/-- A place of the loop where it has nothing in hand and counts on nothing. -/
def Idle : LoopAt α → Prop
  | .moveOut | .addGet _ | .countDown _ | .call _ => False
  | _ => True

theorem Idle.spec {loop : LoopAt α} (h : Idle loop) :
    hand loop = [] ∧ getLag loop = 0 ∧ getOwed loop = 0 ∧ wanted loop = 0 := by
  cases loop <;> simp [Idle, hand, getLag, getOwed, wanted] at h ⊢

/-- The loop goes from one such place to another and takes no event. -/
theorem Queue.move {s s' : TaskScheduler α} {q : List α} {i : TaskStep α} (h : Queue s q)
    (hring : s'.triggerEvents = s.triggerEvents) (hholder : s'.holder = s.holder) (hidle : Idle s.loop) (hidle' : Idle s'.loop) :
    ∃ q', Queue s' q' ∧ none ∉ hand s'.loop ∧ pushedOf [(i, (.silent : TaskEvent α))] = [] ∧
      hand s.loop ++ q.map some = (ranOf [(i, (.silent : TaskEvent α))]).map some ++ hand s'.loop ++ q'.map some := by
  obtain ⟨hholds, hput, hcount, hroom, hwant⟩ := h
  obtain ⟨hhand, hlag, howed, hwanted⟩ := hidle.spec
  obtain ⟨hhand', hlag', howed', hwanted'⟩ := hidle'.spec
  rw [hlag] at hholds hput
  rw [howed] at hcount
  refine ⟨q, ⟨?_, ?_, ?_, ?_, ?_⟩, by simp [hhand'], rfl, by rw [hhand, hhand']; rfl⟩ <;>
    simp only [hring, hholder, hlag', howed', hwanted'] <;> first | assumption | exact Nat.zero_le _

/-- What a step of the loop does: the events that wait, with the one in its hand, stay what they are but for the one it calls. -/
theorem queue_loopStep {s s' : TaskScheduler α} {q : List α} {woken : Bool} {event : TaskEvent α} (h : Queue s q)
    (hhand : none ∉ hand s.loop) (hstep : loopStep woken s = .ok (event, s')) (i : TaskStep α) :
    ∃ q', Queue s' q' ∧ none ∉ hand s'.loop ∧ pushedOf [(i, event)] = [] ∧
      hand s.loop ++ q.map some = (ranOf [(i, event)]).map some ++ hand s'.loop ++ q'.map some := by
  rw [loopStep] at hstep
  split at hstep
  case h_1 hloop =>
    cases hstep
    exact h.move rfl rfl (by rw [hloop]; trivial) trivial
  case h_2 hloop =>
    cases hstep
    exact h.move rfl rfl (by rw [hloop]; trivial) (by dsimp only; split <;> trivial)
  case h_3 hloop =>
    cases hstep
    rcases Nat.eq_zero_or_pos s.triggerEvents.numDatas with hzero | hpos
    · rw [if_neg (by omega)]
      exact h.move rfl rfl (by rw [hloop]; trivial) trivial
    · rw [if_pos hpos]
      obtain ⟨hholds, hput, hcount, hroom, hwant⟩ := h
      simp only [hloop, getLag, getOwed, wanted] at hholds hput hcount hwant
      exact ⟨q, ⟨hholds, hput, hcount, hroom, hpos⟩, by simp [hand], rfl, by simp [hloop, hand, ranOf]⟩
  case h_4 hloop =>
    cases hstep
    obtain ⟨callback, rest, rfl, hfront, hrest⟩ := h.moveOut hloop
    rw [hfront]
    exact ⟨rest, hrest, by simp [hand], rfl, by simp [hloop, hand, ranOf]⟩
  case h_5 hloop =>
    cases hstep
    exact ⟨q, h.addGet hloop, by simpa [hand, hloop] using hhand, rfl, by simp [hloop, hand, ranOf]⟩
  case h_6 hloop =>
    cases hstep
    exact ⟨q, h.countDown hloop, by simpa [hand, hloop] using hhand, rfl, by simp [hloop, hand, ranOf]⟩
  case h_7 => cases hstep
  case h_8 hloop =>
    cases hstep
    obtain ⟨hholds, hput, hcount, hroom, hwant⟩ := h
    simp only [hloop, getLag, getOwed, wanted] at hholds hput hcount hwant
    exact ⟨q, ⟨hholds, hput, hcount, hroom, hwant⟩, by simp [hand], rfl, by simp [hloop, hand, ranOf]⟩
  case h_9 hloop =>
    cases hstep
    exact h.move rfl rfl (by rw [hloop]; trivial) (by dsimp only; split <;> trivial)
  case h_10 hloop =>
    split at hstep
    · split at hstep <;> cases hstep
      exact h.move rfl rfl (by rw [hloop]; trivial) trivial
    · cases hstep
      exact h.move rfl rfl (by rw [hloop]; trivial) trivial
  case h_11 hloop =>
    split at hstep <;> cases hstep
    · exact h.move rfl rfl (by rw [hloop]; trivial) (by rw [hloop]; trivial)
    · exact h.move rfl rfl (by rw [hloop]; trivial) trivial
  case h_12 => cases hstep

/-- What any step does. -/
theorem queue_step {s s' : TaskScheduler α} {q : List α} {i : TaskStep α} {event : TaskEvent α} (h : Queue s q)
    (hhand : none ∉ hand s.loop) (hstep : step i s = .ok (event, s')) :
    ∃ q', Queue s' q' ∧ none ∉ hand s'.loop ∧ hand s.loop ++ (q ++ pushedOf [(i, event)]).map some =
      (ranOf [(i, event)]).map some ++ hand s'.loop ++ q'.map some := by
  cases i with
  | add thread callback =>
    simp only [step] at hstep
    split at hstep
    · split at hstep
      · cases hstep
        exact ⟨q, h.of_eq rfl rfl rfl, hhand, by simp [pushedOf, ranOf]⟩
      · cases hstep
        exact ⟨q, h, hhand, by simp [pushedOf, ranOf]⟩
    · cases hstep
  | lock thread =>
    simp only [step] at hstep
    split at hstep
    · rename_i hholder _
      cases hstep
      obtain ⟨hholds, hput, hcount, hroom, hwant⟩ := h
      simp only [hholder, putLag, putOwed, claimed] at hput hcount hroom
      exact ⟨q, ⟨hholds, hput, hcount, hroom, hwant⟩, hhand, by simp [pushedOf, ranOf]⟩
    · cases hstep
  | push =>
    simp only [step] at hstep
    split at hstep
    · cases hstep
    · rename_i thread pc hholder
      obtain ⟨hqueue, hloop, hran⟩ := queue_pushStep h hholder (Except.ok.inj hstep) .push
      exact ⟨_, hqueue, by rwa [hloop], by rw [hloop, hran]; simp⟩
  | loop woken =>
    obtain ⟨q', hqueue, hhand', hpushed, heq⟩ := queue_loopStep h hhand hstep (.loop woken)
    exact ⟨q', hqueue, hhand', by rw [hpushed, List.append_nil, heq]⟩
  | stop =>
    cases hstep
    exact ⟨q, h.of_eq rfl rfl rfl, hhand, by simp [pushedOf, ranOf]⟩
  | stopWrite =>
    simp only [step] at hstep
    split at hstep
    · cases hstep
      exact ⟨q, h.of_eq rfl rfl rfl, hhand, by simp [writePipe, pushedOf, ranOf]⟩
    · cases hstep

/-- A step that is not made has to wait, unless the loop has an empty function in its hand. -/
theorem step_error {s : TaskScheduler α} {i : TaskStep α} {e : TaskStuck} (hstep : step i s = .error e) :
    e = .blocked ∨ s.loop = .call none := by
  cases i with
  | add thread callback =>
    simp only [step] at hstep
    split at hstep
    · split at hstep <;> cases hstep
    · cases hstep
      exact Or.inl rfl
  | lock thread =>
    simp only [step] at hstep
    split at hstep <;> cases hstep
    exact Or.inl rfl
  | push =>
    simp only [step] at hstep
    split at hstep <;> cases hstep
    exact Or.inl rfl
  | loop woken =>
    simp only [step, loopStep] at hstep
    split at hstep
    case h_7 hloop => exact Or.inr hloop
    case h_10 =>
      split at hstep
      · split at hstep <;> cases hstep
        exact Or.inl rfl
      · cases hstep
    case h_11 => split at hstep <;> cases hstep
    all_goals
      cases hstep
      try exact Or.inl rfl
  | stop => cases hstep
  | stopWrite =>
    simp only [step] at hstep
    split at hstep <;> cases hstep
    exact Or.inl rfl

/-! ## Logs -/

@[simp] theorem pushedOf_append (log log' : List (TaskStep α × TaskEvent α)) : pushedOf (log ++ log') = pushedOf log ++ pushedOf log' :=
  List.filterMap_append

@[simp] theorem ranOf_append (log log' : List (TaskStep α × TaskEvent α)) : ranOf (log ++ log') = ranOf log ++ ranOf log' :=
  List.filterMap_append

/-- The events stored so far are those that ran, the one in the hand of the loop and those in the queue, in this order. -/
def Served (log : List (TaskStep α × TaskEvent α)) (s : TaskScheduler α) : Prop :=
  ∃ q, Queue s q ∧ none ∉ hand s.loop ∧ (pushedOf log).map some = (ranOf log).map some ++ hand s.loop ++ q.map some

theorem served_start : Served [] (start : TaskScheduler α) := ⟨[], queue_start, by simp [start, hand], rfl⟩

theorem served_step (log : List (TaskStep α × TaskEvent α)) (s : TaskScheduler α) (i : TaskStep α) (event : TaskEvent α)
    (s' : TaskScheduler α) (h : Served log s) (hstep : step i s = .ok (event, s')) : Served (log ++ [(i, event)]) s' := by
  obtain ⟨q, hqueue, hhand, heq⟩ := h
  obtain ⟨q', hqueue', hhand', heq'⟩ := queue_step hqueue hhand hstep
  refine ⟨q', hqueue', hhand', ?_⟩
  calc (pushedOf (log ++ [(i, event)])).map some
      = (ranOf log).map some ++ (hand s.loop ++ (q ++ pushedOf [(i, event)]).map some) := by
        rw [pushedOf_append, List.map_append, heq, List.map_append]
        simp only [List.append_assoc]
    _ = (ranOf (log ++ [(i, event)])).map some ++ hand s'.loop ++ q'.map some := by
        rw [heq', ranOf_append, List.map_append]
        simp only [List.append_assoc]

/-! ## Waking the loop -/

/-- The loop has seen the flag unset and has not slept since. -/
def PastTest : LoopAt α → Prop
  | .clear | .shutdownTest | .wake | .stopped => False
  | _ => True

/-- Where the loop is about to sleep, whatever it should wake for has a byte in the pipe or a thread that is about to write one. -/
structure Awake (s : TaskScheduler α) : Prop where
  queue : s.loop = .wait → 0 < s.triggerEvents.numDatas → 0 < s.wakeupPipe ∨ ∃ thread, s.holder = some (thread, .notify)
  shutdown : PastTest s.loop → s.isShutdown = true → 0 < s.wakeupPipe ∨ 0 < s.stopping

theorem writePipe_pos (s : TaskScheduler α) : 0 < s.writePipe.wakeupPipe := by
  unfold writePipe pipeSize
  dsimp only
  omega

theorem awake_start : Awake (start : TaskScheduler α) :=
  ⟨fun h => (by cases h), fun _ h => (by cases h)⟩

theorem Awake.pushStep {s s' : TaskScheduler α} {thread : ℕ} {pc : PushAt α} {event : TaskEvent α} (h : Awake s)
    (hholder : s.holder = some (thread, pc)) (hstep : pushStep thread pc s = (event, s')) : Awake s' := by
  have hpipe : pc ≠ .notify → s.loop = .wait → 0 < s.triggerEvents.numDatas → 0 < s.wakeupPipe := by
    intro hpc hloop hpos
    rcases h.queue hloop hpos with hpipe | ⟨thread', hnotify⟩
    · exact hpipe
    · rw [hholder, Option.some.injEq, Prod.mk.injEq] at hnotify
      exact absurd hnotify.2 hpc
  cases pc with
  | test callback =>
    simp only [TaskScheduler.pushStep] at hstep
    split at hstep <;> cases hstep <;>
      exact ⟨fun hloop hpos => Or.inl (hpipe (by simp) hloop hpos), h.shutdown⟩
  | write callback =>
    cases hstep
    exact ⟨fun hloop hpos => Or.inl (hpipe (by simp) hloop hpos), h.shutdown⟩
  | addPut =>
    cases hstep
    exact ⟨fun hloop hpos => Or.inl (hpipe (by simp) hloop hpos), h.shutdown⟩
  | countUp =>
    cases hstep
    exact ⟨fun _ _ => Or.inr ⟨thread, rfl⟩, h.shutdown⟩
  | notify =>
    cases hstep
    exact ⟨fun _ _ => Or.inl (writePipe_pos s), fun _ _ => Or.inl (writePipe_pos s)⟩

theorem Awake.loopStep {s s' : TaskScheduler α} {woken : Bool} {event : TaskEvent α} (h : Awake s)
    (hstep : loopStep woken s = .ok (event, s')) : Awake s' := by
  have hshutdown := h.shutdown
  rw [TaskScheduler.loopStep] at hstep
  split at hstep
  case h_1 =>
    cases hstep
    exact ⟨fun hwait => (by cases hwait), fun hpast => absurd hpast id⟩
  case h_2 =>
    cases hstep
    cases hdown : s.isShutdown with
    | true => exact ⟨fun hloop => (by simp at hloop), fun hpast => absurd hpast id⟩
    | false => exact ⟨fun hloop => (by simp at hloop), fun _ hset => (by cases hset)⟩
  case h_3 hloop =>
    cases hstep
    refine ⟨fun hwait => ?_, fun _ => hshutdown (by rw [hloop]; trivial)⟩
    dsimp only at hwait
    split at hwait <;> cases hwait
  case h_4 hloop | h_5 hloop | h_6 hloop | h_8 hloop =>
    cases hstep
    exact ⟨fun hwait => (by cases hwait), fun _ => hshutdown (by rw [hloop]; trivial)⟩
  case h_7 => cases hstep
  case h_9 hloop =>
    cases hstep
    refine ⟨fun hwait hpos => ?_, fun _ => hshutdown (by rw [hloop]; trivial)⟩
    dsimp only at hwait hpos
    rw [if_pos hpos] at hwait
    cases hwait
  case h_10 =>
    split at hstep
    · split at hstep <;> cases hstep
      exact ⟨fun hwait => (by cases hwait), fun hpast => absurd hpast id⟩
    · cases hstep
      exact ⟨fun hwait => (by cases hwait), fun hpast => absurd hpast id⟩
  case h_11 hloop =>
    split at hstep <;> cases hstep
    · exact ⟨fun hwait => (by rw [hloop] at hwait; cases hwait), fun hpast => (by rw [hloop] at hpast; exact absurd hpast id)⟩
    · exact ⟨fun hwait => (by cases hwait), fun hpast => absurd hpast id⟩
  case h_12 => cases hstep

/-- Every step keeps the loop wakeable. -/
theorem Awake.step {s s' : TaskScheduler α} {i : TaskStep α} {event : TaskEvent α} (h : Awake s)
    (hstep : step i s = .ok (event, s')) : Awake s' := by
  cases i with
  | add thread callback =>
    simp only [TaskScheduler.step] at hstep
    split at hstep
    · split at hstep <;> cases hstep
      · exact ⟨h.queue, h.shutdown⟩
      · exact h
    · cases hstep
  | lock thread =>
    simp only [TaskScheduler.step] at hstep
    split at hstep
    · rename_i hholder _
      cases hstep
      refine ⟨fun hloop hpos => Or.inl ?_, h.shutdown⟩
      rcases h.queue hloop hpos with hpipe | ⟨thread', hnotify⟩
      · exact hpipe
      · rw [hholder] at hnotify
        cases hnotify
    · cases hstep
  | push =>
    simp only [TaskScheduler.step] at hstep
    split at hstep
    · cases hstep
    · rename_i thread pc hholder
      exact h.pushStep hholder (Except.ok.inj hstep)
  | loop woken => exact h.loopStep hstep
  | stop =>
    cases hstep
    exact ⟨h.queue, fun _ _ => Or.inr (Nat.succ_pos _)⟩
  | stopWrite =>
    simp only [TaskScheduler.step] at hstep
    split at hstep <;> cases hstep
    exact ⟨fun _ _ => Or.inl (writePipe_pos s), fun _ _ => Or.inl (writePipe_pos s)⟩

/-! ## The flag -/

/-- What a step of the loop does to the flag: its first line clears it, and the loop does not come back to that line. -/
theorem flag_loopStep {s s' : TaskScheduler α} {woken : Bool} {event : TaskEvent α} (hstep : loopStep woken s = .ok (event, s')) :
    s'.loop ≠ .clear ∧ (s.loop ≠ .clear → s'.isShutdown = s.isShutdown) := by
  rw [TaskScheduler.loopStep] at hstep
  split at hstep
  case h_1 hloop =>
    cases hstep
    exact ⟨by simp, fun hne => absurd hloop hne⟩
  case h_2 | h_3 | h_9 =>
    cases hstep
    dsimp only
    exact ⟨by split <;> simp, fun _ => rfl⟩
  case h_7 | h_12 => cases hstep
  case h_10 =>
    split at hstep
    · split at hstep <;> cases hstep
      exact ⟨by simp, fun _ => rfl⟩
    · cases hstep
      exact ⟨by simp, fun _ => rfl⟩
  case h_11 hloop =>
    split at hstep <;> cases hstep
    · exact ⟨by simp [hloop], fun _ => rfl⟩
    · exact ⟨by simp, fun _ => rfl⟩
  all_goals
    cases hstep
    exact ⟨by simp, fun _ => rfl⟩

/-- What any step does to the flag and to the place of the loop. -/
theorem flag_step {s s' : TaskScheduler α} {i : TaskStep α} {event : TaskEvent α} (hstep : step i s = .ok (event, s')) :
    (i = .stop ∧ s'.loop = s.loop ∧ s'.isShutdown = true) ∨
      ((∀ woken, i ≠ .loop woken) ∧ s'.loop = s.loop ∧ s'.isShutdown = s.isShutdown) ∨
      ((∃ woken, i = .loop woken) ∧ s'.loop ≠ .clear ∧ (s.loop ≠ .clear → s'.isShutdown = s.isShutdown)) := by
  cases i with
  | add thread callback =>
    simp only [step] at hstep
    split at hstep
    · split at hstep <;> cases hstep <;> exact Or.inr (Or.inl ⟨by simp, rfl, rfl⟩)
    · cases hstep
  | lock thread =>
    simp only [step] at hstep
    split at hstep <;> cases hstep
    exact Or.inr (Or.inl ⟨by simp, rfl, rfl⟩)
  | push =>
    simp only [step] at hstep
    split at hstep
    · cases hstep
    · rename_i thread pc _
      refine Or.inr (Or.inl ⟨by simp, ?_⟩)
      have hstep := Except.ok.inj hstep
      cases pc <;> simp only [TaskScheduler.pushStep] at hstep
      case test => split at hstep <;> cases hstep <;> exact ⟨rfl, rfl⟩
      all_goals
        cases hstep
        exact ⟨rfl, rfl⟩
  | loop woken => exact Or.inr (Or.inr ⟨⟨woken, rfl⟩, flag_loopStep hstep⟩)
  | stop =>
    cases hstep
    exact Or.inl ⟨rfl, rfl, rfl⟩
  | stopWrite =>
    simp only [step] at hstep
    split at hstep <;> cases hstep
    exact Or.inr (Or.inl ⟨by simp, rfl, rfl⟩)

/-- Behind its first line the loop never finds the flag cleared again. -/
structure Asked (s : TaskScheduler α) : Prop where
  past : s.loop ≠ .clear
  flag : s.isShutdown = true

theorem Asked.step {s s' : TaskScheduler α} {i : TaskStep α} {event : TaskEvent α} (h : Asked s)
    (hstep : step i s = .ok (event, s')) : Asked s' := by
  rcases flag_step hstep with ⟨-, hloop, hflag⟩ | ⟨-, hloop, hflag⟩ | ⟨-, hloop, hflag⟩
  · exact ⟨hloop ▸ h.past, hflag⟩
  · exact ⟨hloop ▸ h.past, hflag.trans h.flag⟩
  · exact ⟨hloop, (hflag h.past).trans h.flag⟩

/-- A run in which the loop has made a step has its first line behind it. -/
theorem past_of_run {steps : List (TaskStep α)} {s s' : TaskScheduler α} {woken : Bool} (hmem : .loop woken ∈ steps)
    (hrun : (Machine.run step steps s).2 = .ok s') : s'.loop ≠ .clear := by
  obtain ⟨earlier, later, rfl⟩ := List.append_of_mem hmem
  obtain ⟨s₁, -, hlater⟩ := Machine.ok_of_run_append hrun
  obtain ⟨event, s₂, hstep, hrest⟩ := Machine.ok_of_run_cons hlater
  refine Machine.run_invariant (fun s : TaskScheduler α => s.loop ≠ .clear) (fun i _ s event s' h hstep => ?_)
    (flag_loopStep hstep).1 hrest
  rcases flag_step hstep with ⟨-, hloop, -⟩ | ⟨-, hloop, -⟩ | ⟨-, hloop, -⟩
  · exact hloop ▸ h
  · exact hloop ▸ h
  · exact hloop

/-- Once the loop has its first line behind it, a `Stop` is not forgotten. -/
theorem asked_of_run {earlier later : List (TaskStep α)} {s s' : TaskScheduler α} {woken : Bool} (hmem : .loop woken ∈ earlier)
    (hrun : (Machine.run step (earlier ++ .stop :: later) s).2 = .ok s') : Asked s' := by
  obtain ⟨s₁, hearlier, hlater⟩ := Machine.ok_of_run_append hrun
  have hpast := past_of_run hmem hearlier
  obtain ⟨event, s₂, hstep, hrest⟩ := Machine.ok_of_run_cons hlater
  refine Machine.run_invariant Asked (fun i _ s event s' h hstep => h.step hstep) ?_ hrest
  cases hstep
  exact ⟨hpast, rfl⟩

/-! ## Room for the calls under way -/

/-- The calls that are past their look at `Size()` all find room. -/
structure Room (s : TaskScheduler α) : Prop where
  capacity : s.triggerEvents.capacity = kMaxTriggetEvents
  calls : s.triggerEvents.numDatas + s.pending ≤ kMaxTriggetEvents

theorem room_start : Room (start : TaskScheduler α) := ⟨rfl, Nat.zero_le _⟩

theorem Room.pushStep {s s' : TaskScheduler α} {thread : ℕ} {pc : PushAt α} {event : TaskEvent α} (h : Room s)
    (hholder : s.holder = some (thread, pc)) (hstep : pushStep thread pc s = (event, s')) :
    Room s' ∧ ∀ thread callback, event ≠ .lost thread callback := by
  obtain ⟨hcapacity, hpending⟩ := h
  rw [TaskScheduler.pending, hholder] at hpending
  cases pc with
  | test callback =>
    simp only [TaskScheduler.pushStep] at hstep
    have hlt : s.triggerEvents.numDatas < s.triggerEvents.capacity := by
      dsimp only at hpending
      omega
    rw [if_pos hlt] at hstep
    cases hstep
    exact ⟨⟨hcapacity, hpending⟩, by simp⟩
  | write callback | addPut =>
    cases hstep
    exact ⟨⟨hcapacity, hpending⟩, by simp⟩
  | countUp =>
    cases hstep
    refine ⟨⟨hcapacity, ?_⟩, by simp⟩
    simp only [RingBuffer.countUp, TaskScheduler.pending]
    dsimp only at hpending
    omega
  | notify =>
    cases hstep
    exact ⟨⟨hcapacity, hpending⟩, by simp⟩

theorem Room.loopStep {s s' : TaskScheduler α} {woken : Bool} {event : TaskEvent α} (h : Room s)
    (hstep : loopStep woken s = .ok (event, s')) : Room s' ∧ ∀ thread callback, event ≠ .lost thread callback := by
  obtain ⟨hcapacity, hpending⟩ := h
  rw [TaskScheduler.loopStep] at hstep
  split at hstep
  case h_6 =>
    cases hstep
    refine ⟨⟨hcapacity, ?_⟩, by simp⟩
    exact Nat.le_trans (Nat.add_le_add_right (Nat.sub_le _ _) _) hpending
  case h_7 | h_12 => cases hstep
  case h_10 =>
    split at hstep
    · split at hstep <;> cases hstep
      exact ⟨⟨hcapacity, hpending⟩, by simp⟩
    · cases hstep
      exact ⟨⟨hcapacity, hpending⟩, by simp⟩
  case h_11 =>
    split at hstep <;> cases hstep <;> exact ⟨⟨hcapacity, hpending⟩, by simp⟩
  all_goals
    cases hstep
    exact ⟨⟨hcapacity, hpending⟩, by simp⟩

/-- A step leaves room for the calls under way and loses nothing, if a new call finds room for itself behind them. -/
theorem Room.step {s s' : TaskScheduler α} {i : TaskStep α} {event : TaskEvent α} (h : Room s)
    (hnew : ∀ thread callback, i = .add thread callback → s.triggerEvents.numDatas + s.pending < kMaxTriggetEvents)
    (hstep : step i s = .ok (event, s')) : Room s' ∧ ∀ thread callback, event ≠ .lost thread callback := by
  cases i with
  | add thread callback =>
    simp only [TaskScheduler.step] at hstep
    split at hstep
    · split at hstep <;> cases hstep
      · refine ⟨⟨h.capacity, ?_⟩, by simp⟩
        have hlt := hnew thread callback rfl
        unfold TaskScheduler.pending at hlt ⊢
        simp only [List.length_append, List.length_singleton]
        omega
      · exact ⟨h, by simp⟩
    · cases hstep
  | lock thread =>
    simp only [TaskScheduler.step] at hstep
    split at hstep
    · rename_i found callback hholder hfind
      cases hstep
      refine ⟨⟨h.capacity, ?_⟩, by simp⟩
      have hpending := h.calls
      have hmem := List.mem_of_find?_eq_some hfind
      have hlength := List.length_eraseP_of_mem hmem (List.find?_some hfind)
      have hpos := List.length_pos_of_mem hmem
      unfold TaskScheduler.pending at hpending ⊢
      simp only [hholder] at hpending ⊢
      omega
    · cases hstep
  | push =>
    simp only [TaskScheduler.step] at hstep
    split at hstep
    · cases hstep
    · rename_i thread pc hholder
      exact h.pushStep hholder (Except.ok.inj hstep)
  | loop woken => exact h.loopStep hstep
  | stop =>
    cases hstep
    exact ⟨⟨h.capacity, h.calls⟩, by simp⟩
  | stopWrite =>
    simp only [TaskScheduler.step] at hstep
    split at hstep <;> cases hstep
    exact ⟨⟨h.capacity, h.calls⟩, by simp⟩

end TaskScheduler

end AuthVideo.Xop
