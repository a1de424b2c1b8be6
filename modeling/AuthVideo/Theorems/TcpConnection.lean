import AuthVideo.Lemmas.TcpConnection

/-!
# Theorems 61 and 62: the bytes of a connection

`Send` puts a message into a queue and the socket takes it in parts, whenever it can, from whichever thread gets the mutex.
-/

namespace AuthVideo.Xop

open TcpConnection

/-- Theorem 61 (every accepted byte once). Whatever the socket answers and however the threads take turns, the bytes that went out
with those that are pending are the accepted messages, one after the other; a message that is dropped leaves no byte. -/
theorem sent_then_pending (steps : List TcpStep) :
    wroteOf (run steps).1 <+: acceptedOf (run steps).1 ∧
      ∀ c, (run steps).2 = .ok c → acceptedOf (run steps).1 = wroteOf (run steps).1 ++ c.writeBuffer.pending := by
  have hstart : Conserved [] new := rfl
  have hlog := Machine.run_log Conserved conserved_step hstart steps
  unfold run
  rcases hrun : Machine.run step steps new with ⟨log, e | c⟩
  · rw [hrun] at hlog
    obtain ⟨-, c, hconserved, -⟩ := hlog
    exact ⟨⟨c.writeBuffer.pending, Eq.symm hconserved⟩, fun c hc => (nomatch hc)⟩
  · rw [hrun] at hlog
    refine ⟨⟨c.writeBuffer.pending, Eq.symm hlog⟩, fun c' hc => ?_⟩
    cases hc
    exact hlog

/-- Theorem 62 (no message is left behind). In a run in which no `HandleWrite` finds the mutex with a handler that does not write
itself, an open connection at rest waits for `EPOLLOUT` exactly when bytes are pending. -/
theorem waits_iff_pending (steps : List TcpStep) (c : TcpConnection) (hrun : (run steps).2 = .ok c)
    (hbusy : ∀ entry ∈ (run steps).1, entry.2 ≠ .busy .other) (hquiet : c.Quiet) (hopen : c.isClosed = false) :
    c.watched = true ∧ (c.writing = true ↔ c.writeBuffer.pending ≠ []) := by
  have harmed : Armed c := by
    have hstart : (∀ entry ∈ ([] : List (TcpStep × TcpEvent)), entry.2 ≠ .busy .other) → Armed new := fun _ => armed_new
    have hlog := Machine.run_log _ armed_step hstart steps
    unfold run at hrun hbusy
    rcases hend : Machine.run step steps new with ⟨log, e | c'⟩ <;> rw [hend] at hrun hlog hbusy <;> cases hrun
    exact hlog hbusy
  obtain ⟨hmutex, -, hlooking, htrying⟩ := hquiet
  refine ⟨harmed.watched hopen, fun hset => ?_, fun hpending => ?_⟩
  · rw [ne_eq, BufferWriter.pending_eq_nil_iff]
    exact harmed.writing hopen hset
  · rw [ne_eq, BufferWriter.pending_eq_nil_iff] at hpending
    rcases harmed.left hopen hpending with hset | ⟨data, hheld⟩ | hheld | hnext | hnext
    · exact hset
    · rw [hmutex] at hheld
      cases hheld
    · rw [hmutex] at hheld
      cases hheld
    · omega
    · omega

/-- A message of which the socket takes a part. -/
theorem waits_iff_pending_partial :
    ∃ c, (run [.send [1, 2, 3], .lockAppend 0, .append, .look, .tryLock, .write fun _ => .took 1]).2 = .ok c ∧
      c.writing = true ∧ c.writeBuffer.pending = [3] := by
  refine ⟨_, rfl, ?_, rfl⟩
  refine ((waits_iff_pending [.send [1, 2, 3], .lockAppend 0, .append, .look, .tryLock, .write fun _ => .took 1] _ rfl ?_
    ⟨rfl, rfl, rfl, rfl⟩ rfl).2).mpr ?_
  · intro entry hentry
    change entry ∈ [(_, TcpEvent.silent), (_, .silent), (_, .accepted [1, 2, 3]), (_, .silent), (_, .silent), (_, .wrote [1, 2])]
      at hentry
    simp only [List.mem_cons, List.not_mem_nil, or_false] at hentry
    rcases hentry with rfl | rfl | rfl | rfl | rfl | rfl <;> simp
  · exact List.cons_ne_nil _ _

/-- Where `HandleRead` has the mutex at that moment, the message stays in the queue and nobody waits for the socket. -/
example : ∃ c, (run [.send [1], .lockAppend 0, .append, .look, .lockOther, .tryLock, .unlockOther false]).2 = .ok c ∧ c.Quiet ∧
    c.isClosed = false ∧ c.writing = false ∧ c.writeBuffer.pending = [1] :=
  ⟨_, rfl, ⟨rfl, rfl, rfl, rfl⟩, rfl, rfl, rfl⟩

end AuthVideo.Xop
