import AuthVideo.Lemmas.TaskScheduler

/-!
# Theorems 58 to 60: the events of a scheduler

Threads hand events to a scheduler through a ring buffer that its loop empties without a lock, and wake it by a byte in a pipe.
-/

namespace AuthVideo.Xop

open TaskScheduler

variable {α : Type*}

/-- Theorem 58 (the queue of events under any interleaving). However the accesses of the callers and of the loop follow each
other, the events run in the order in which they were stored, none twice and none that was not stored; the loop never calls an
empty function; a caller never writes the slot that the loop reads; and where neither side is in the middle of its work, the
buffer holds exactly the stored events that have not run. -/
theorem events_run_in_order (steps : List (TaskStep α)) :
    ranOf (run steps).1 <+: pushedOf (run steps).1 ∧ (∀ e, (run steps).2 = .error e → e = .blocked) ∧
      ∀ s, (run steps).2 = .ok s →
        (∀ thread callback, s.holder = some (thread, .write callback) → s.loop = .moveOut →
          s.triggerEvents.putPos ≠ s.triggerEvents.getPos) ∧
        (s.Quiet → pushedOf (run steps).1 = ranOf (run steps).1 ++ s.triggerEvents.contents) := by
  have hlog := Machine.run_log TaskScheduler.Served served_step served_start steps
  have hinitial : ∀ log : List (TaskStep α × TaskEvent α), ∀ s, TaskScheduler.Served log s → ranOf log <+: pushedOf log := by
    rintro log s ⟨q, -, hhand, heq⟩
    have hinitial : (ranOf log).map some <+: (pushedOf log).map some := ⟨hand s.loop ++ q.map some, by rw [heq, List.append_assoc]⟩
    exact (List.prefix_map_iff_of_injective (Option.some_injective α)).mp hinitial
  unfold run
  rcases hrun : Machine.run step steps start with ⟨log, e | s⟩
  · rw [hrun] at hlog
    obtain ⟨i, s, hserved, hstep⟩ := hlog
    refine ⟨hinitial log s hserved, fun e' he => ?_, fun s' hs => (by cases hs)⟩
    cases he
    obtain ⟨q, -, hhand, -⟩ := hserved
    rcases step_error hstep with hblocked | hempty
    · exact hblocked
    · rw [hempty] at hhand
      simp [hand] at hhand
  · rw [hrun] at hlog
    refine ⟨hinitial log s hlog, fun e he => (by cases he), fun s' hs => ?_⟩
    cases hs
    obtain ⟨q, hqueue, hhand, heq⟩ := hlog
    obtain ⟨hholds, hput, hcount, hroom, hwant⟩ := id hqueue
    refine ⟨fun thread callback hholder hloop hsame => ?_, fun hquiet => ?_⟩
    · have hlen := hqueue.length_lt hholder
      simp only [hholder, hloop, putLag, getLag, getOwed, putOwed, wanted, Nat.add_zero] at hput hcount hwant
      rw [hsame, s.triggerEvents.length_buffer] at *
      have hzero : 0 = q.length := Ring.slot_inj s.triggerEvents.capacity_pos hlen (by rw [Nat.add_zero]; exact hput)
      omega
    · obtain ⟨hholder, hloop⟩ := hquiet
      have hlag : getLag s.loop = 0 ∧ getOwed s.loop = 0 ∧ hand s.loop = [] := by
        rcases hl : s.loop <;> simp_all [getLag, getOwed, hand]
      have howed : putOwed s.holder = 0 := by
        rcases hh : s.holder with _ | ⟨thread, pc⟩
        · rfl
        · cases pc <;> simp_all [putOwed]
      rw [hlag.1] at hholds
      rw [hlag.2.1, howed] at hcount
      rw [RingBuffer.contents_eq hholds hcount]
      refine List.map_injective_iff.mpr (Option.some_injective α) ?_
      rw [hlag.2.2, List.append_nil] at heq
      rw [List.map_append]
      exact heq

/-- Theorem 59 (no event is slept over). Where the loop sleeps in `epoll_wait` with nothing to read in the pipe, while no caller is
between counting its event and its byte in the pipe and no `Stop` between its flag and its byte, no event waits, and nobody has
asked the loop to end since `Start` cleared the flag: every `Stop` of the run came before that line, which forgets it. -/
theorem sleeps_only_when_idle (steps : List (TaskStep α)) (s : TaskScheduler α) (hrun : (run steps).2 = .ok s)
    (hwait : s.loop = .wait) (hpipe : s.wakeupPipe = 0) (hholder : ∀ thread, s.holder ≠ some (thread, .notify))
    (hstopping : s.stopping = 0) :
    s.triggerEvents.numDatas = 0 ∧
      ∀ earlier later, steps = earlier ++ .stop :: later → ∀ woken, .loop woken ∉ earlier := by
  have hawake : Awake s :=
    Machine.run_invariant Awake (fun _ _ s _ s' h hstep => h.step hstep) awake_start hrun
  constructor
  · by_contra hpos
    rcases hawake.queue hwait (Nat.pos_of_ne_zero hpos) with hbyte | ⟨thread, hnotify⟩
    · omega
    · exact hholder thread hnotify
  · rintro earlier later rfl woken hmem
    have hasked := asked_of_run hmem hrun
    rcases hawake.shutdown (by rw [hwait]; trivial) hasked.flag with hbyte | hstop <;> omega

/-- A loop that was asked to end before its first line wakes once, finds the flag cleared, and sleeps. -/
theorem sleeps_only_when_idle_early :
    let steps : List (TaskStep ℕ) := [.stop, .stopWrite] ++ List.replicate 4 (.loop false) ++ List.replicate 6 (.loop true)
    ∃ s, (run steps).2 = .ok s ∧ s.loop = .wait ∧ s.triggerEvents.numDatas = 0 ∧
      ∀ earlier later, steps = earlier ++ .stop :: later → ∀ woken, .loop woken ∉ earlier := by
  intro steps
  exact ⟨_, rfl, rfl, sleeps_only_when_idle steps _ rfl rfl rfl (fun _ => by rintro ⟨⟩) rfl⟩

/-- Theorem 60 (true means stored, while there is room for all). `AddTriggerEvent` reads `Size()` before it takes the mutex and
does not look at what `Push` returns, so calls that overlap can return true and lose their event. They do not as long as
each one finds room behind the events in the queue and behind the calls that are already past their look. -/
theorem nothing_lost (steps : List (TaskStep α))
    (hroom : ∀ earlier thread callback later s, steps = earlier ++ .add thread callback :: later → (run earlier).2 = .ok s →
      s.triggerEvents.numDatas + s.pending < kMaxTriggetEvents) :
    lostOf (run steps).1 = [] := by
  have hreach : ∀ earlier later s, steps = earlier ++ later → (run earlier).2 = .ok s → Room s := by
    intro earlier later s hsplit hrun
    refine Machine.run_invariant_of_prefix Room (fun before i after s₁ event s₂ hcut hbefore h hstep => ?_) room_start hrun
    refine (h.step (fun thread callback hadd => ?_) hstep).1
    exact hroom before thread callback (after ++ later) s₁ (by rw [hsplit, hcut, hadd]; simp) hbefore
  rw [lostOf, List.filterMap_eq_nil_iff]
  intro entry hentry
  obtain ⟨earlier, later, s₁, s₂, hsplit, hrun, hstep⟩ := Machine.mem_run hentry
  have hlost := ((hreach earlier _ s₁ hsplit hrun).step (fun thread callback hadd => ?_) hstep).2
  · split
    · rename_i thread callback hevent
      exact absurd hevent (hlost thread callback)
    · rfl
  · exact hroom earlier thread callback later s₁ (by rw [hsplit, hadd]) hrun

/-- Two calls that both read `Size()` before either takes the mutex. -/
theorem nothing_lost_overlap :
    lostOf (run ([TaskStep.add 1 7, .add 2 8, .lock 2] ++ List.replicate 5 .push ++ .lock 1 :: List.replicate 5 .push)).1 = [] := by
  refine nothing_lost _ fun earlier thread callback later s hsplit hrun => ?_
  rcases earlier with _ | ⟨first, _ | ⟨second, rest⟩⟩
  · cases hrun
    change 0 < 50000
    omega
  · obtain rfl : first = .add 1 7 := by simp at hsplit; exact hsplit.1.symm
    cases hrun
    change 1 < 50000
    omega
  · have hmem : TaskStep.add thread callback ∈ .lock 2 :: (List.replicate 5 .push ++ .lock 1 :: List.replicate 5 .push) := by
      simp only [List.cons_append, List.nil_append, List.cons.injEq] at hsplit
      rw [hsplit.2.2]
      simp
    simp at hmem

end AuthVideo.Xop
