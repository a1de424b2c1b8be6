import AuthVideo.Net.TcpConnection

/-!
# What the writer keeps and what the channel waits for
-/

namespace AuthVideo.Xop

/-! ## The writer -/

theorem OutPacket.rest_ne_nil (pkt : OutPacket) : pkt.rest ≠ [] := by
  have hlt := pkt.index_lt
  unfold OutPacket.rest
  rw [ne_eq, List.drop_eq_nil_iff]
  omega

namespace BufferWriter

@[simp] theorem pending_nil : pending [] = [] := rfl

@[simp] theorem pending_cons (pkt : OutPacket) (buffer : BufferWriter) : pending (pkt :: buffer) = pkt.rest ++ pending buffer := by
  simp [pending]

@[simp] theorem pending_append (buffer buffer' : BufferWriter) : pending (buffer ++ buffer') = pending buffer ++ pending buffer' := by
  simp [pending]

/-- No packet is without bytes. -/
theorem pending_eq_nil_iff (buffer : BufferWriter) : buffer.pending = [] ↔ buffer = [] := by
  cases buffer with
  | nil => simp
  | cons pkt buffer => simp [pkt.rest_ne_nil]

/-- An append puts all of the data at the end. -/
theorem pending_of_append {data : Bytes} {buffer buffer' : BufferWriter} (h : append data 0 buffer = some buffer') :
    buffer'.pending = buffer.pending ++ data := by
  unfold append at h
  split at h
  · split at h
    · cases h
    · cases h
      simp [OutPacket.rest]
  · cases h

/-- Whatever `::send` answers, the bytes go out in their order, and those that do not stay. -/
theorem send_append (answers : ℕ → SendAnswer) (n : ℕ) (buffer : BufferWriter) :
    buffer.pending = (send answers n buffer).1 ++ (send answers n buffer).2.1.pending := by
  induction buffer generalizing n with
  | nil => rfl
  | cons pkt buffer ih =>
    unfold send
    split
    · rename_i more _
      split
      · simp only [pending_cons]
        rw [← List.append_assoc]
        congr 1
        simp only [OutPacket.rest]
        rw [← List.drop_drop, List.take_append_drop]
      · simp only [pending_cons, ih (n + 1), List.append_assoc]
    · rfl
    · rfl

end BufferWriter

/-! ## The connection -/

namespace TcpConnection

@[simp] theorem writeBuffer_close (c : TcpConnection) : c.close.writeBuffer = c.writeBuffer := by
  unfold close
  split <;> rfl

@[simp] theorem isClosed_close (c : TcpConnection) : c.close.isClosed = true := by
  unfold close
  split
  · assumption
  · rfl

@[simp] theorem writeBuffer_updateWriting (c : TcpConnection) : c.updateWriting.writeBuffer = c.writeBuffer := by
  unfold updateWriting
  split <;> split <;> rfl

@[simp] theorem isClosed_updateWriting (c : TcpConnection) : c.updateWriting.isClosed = c.isClosed := by
  unfold updateWriting
  split <;> split <;> rfl

/-- After `HandleWrite` the interest says whether packets are left. -/
theorem writing_updateWriting (c : TcpConnection) : c.updateWriting.writing = true ↔ c.writeBuffer ≠ [] := by
  unfold updateWriting
  split <;> rename_i hempty
  · rw [List.isEmpty_iff] at hempty
    split <;> simp_all
  · rw [List.isEmpty_iff] at hempty
    split <;> simp_all

theorem watched_updateWriting {c : TcpConnection} (h : c.watched = true) : c.updateWriting.watched = true := by
  unfold updateWriting
  split <;> split <;> simp [h]

/-- `HandleWrite` splits what is pending. -/
theorem handleWrite_append (answers : ℕ → SendAnswer) (c : TcpConnection) :
    c.writeBuffer.pending = (c.handleWrite answers).1 ++ (c.handleWrite answers).2.writeBuffer.pending := by
  have hsend := BufferWriter.send_append answers 0 c.writeBuffer
  unfold handleWrite
  dsimp only
  split <;> simpa using hsend

/-- One step: a message that is accepted comes last in what is pending, and what goes out comes first. -/
theorem step_pending {i : TcpStep} {c c' : TcpConnection} {event : TcpEvent} (hstep : step i c = .ok (event, c')) :
    c.writeBuffer.pending ++ acceptedOf [(i, event)] = wroteOf [(i, event)] ++ c'.writeBuffer.pending := by
  cases i with
  | send data =>
    cases hstep
    split <;> simp [acceptedOf, wroteOf]
  | lockAppend i =>
    simp only [step] at hstep
    split at hstep <;> cases hstep
    simp [acceptedOf, wroteOf]
  | append =>
    simp only [step] at hstep
    split at hstep
    · split at hstep
      · rename_i happend
        cases hstep
        simp [acceptedOf, wroteOf, BufferWriter.pending_of_append happend]
      · cases hstep
        simp [acceptedOf, wroteOf]
    · cases hstep
  | writable =>
    simp only [step] at hstep
    split at hstep <;> cases hstep
    simp [acceptedOf, wroteOf]
  | look =>
    simp only [step] at hstep
    split at hstep <;> cases hstep
    simp [acceptedOf, wroteOf]
  | tryLock =>
    simp only [step] at hstep
    split at hstep
    · split at hstep <;> cases hstep <;> simp [acceptedOf, wroteOf]
    · cases hstep
  | write answers =>
    simp only [step] at hstep
    split at hstep <;> cases hstep
    simpa [acceptedOf, wroteOf] using handleWrite_append answers c
  | lockOther =>
    simp only [step] at hstep
    split at hstep <;> cases hstep
    simp [acceptedOf, wroteOf]
  | unlockOther close =>
    simp only [step] at hstep
    split at hstep <;> cases hstep
    cases close <;> simp [acceptedOf, wroteOf]
  | unlockDisconnect =>
    simp only [step] at hstep
    split at hstep <;> cases hstep
    simp [acceptedOf, wroteOf]
  | close =>
    simp only [step] at hstep
    split at hstep <;> cases hstep
    simp [acceptedOf, wroteOf]

/-- What was accepted is what went out and what is pending. -/
def Conserved (log : List (TcpStep × TcpEvent)) (c : TcpConnection) : Prop := acceptedOf log = wroteOf log ++ c.writeBuffer.pending

theorem acceptedOf_append (log log' : List (TcpStep × TcpEvent)) : acceptedOf (log ++ log') = acceptedOf log ++ acceptedOf log' := by
  simp [acceptedOf]

theorem wroteOf_append (log log' : List (TcpStep × TcpEvent)) : wroteOf (log ++ log') = wroteOf log ++ wroteOf log' := by
  simp [wroteOf]

theorem conserved_step (log : List (TcpStep × TcpEvent)) (c : TcpConnection) (i : TcpStep) (event : TcpEvent)
    (c' : TcpConnection) (h : Conserved log c) (hstep : step i c = .ok (event, c')) : Conserved (log ++ [(i, event)]) c' := by
  unfold Conserved at h ⊢
  calc acceptedOf (log ++ [(i, event)])
      = wroteOf log ++ (c.writeBuffer.pending ++ acceptedOf [(i, event)]) := by
        rw [acceptedOf_append, h, List.append_assoc]
    _ = wroteOf (log ++ [(i, event)]) ++ c'.writeBuffer.pending := by
        rw [step_pending hstep, wroteOf_append, List.append_assoc]

/-- While the connection is open, packets are left only where the scheduler waits for the socket or a thread is going to
write. -/
structure Armed (c : TcpConnection) : Prop where
  left : c.isClosed = false → c.writeBuffer ≠ [] →
    c.writing = true ∨ (∃ data, c.mutex = some (.append data)) ∨ c.mutex = some .write ∨ 0 < c.looking ∨ 0 < c.trying
  writing : c.isClosed = false → c.writing = true → c.writeBuffer ≠ []
  watched : c.isClosed = false → c.watched = true

/-- Nothing is asked of a closed connection. -/
theorem Armed.of_closed {c : TcpConnection} (h : c.isClosed = true) : Armed c := by
  constructor <;> (intro hopen; rw [h] at hopen; cases hopen)

theorem armed_new : Armed new := ⟨fun _ h => absurd rfl h, fun _ h => (by cases h), fun _ => rfl⟩

/-- After an append there is something to write. -/
theorem BufferWriter.append_ne_nil {data : Bytes} {buffer buffer' : BufferWriter} (h : buffer.append data 0 = some buffer') :
    buffer' ≠ [] := by
  unfold BufferWriter.append at h
  split at h
  · split at h <;> cases h
    simp
  · cases h

/-- Every step keeps that, unless a `HandleWrite` finds the mutex with another handler. -/
theorem Armed.step {i : TcpStep} {c c' : TcpConnection} {event : TcpEvent} (h : Armed c) (hbusy : event ≠ .busy .other)
    (hstep : step i c = .ok (event, c')) : Armed c' := by
  obtain ⟨hleft, hwriting, hwatched⟩ := h
  have hunlocked : c.mutex = some .other → ∀ closing, Armed { c with mutex := none, closing } := by
    intro hheld closing
    refine ⟨fun hopen hne => ?_, hwriting, hwatched⟩
    rcases hleft hopen hne with hset | ⟨data, hother⟩ | hother | hnext
    · exact Or.inl hset
    · rw [hheld] at hother
      cases hother
    · rw [hheld] at hother
      cases hother
    · exact Or.inr (Or.inr (Or.inr hnext))
  cases i with
  | send data =>
    cases hstep
    split <;> exact ⟨hleft, hwriting, hwatched⟩
  | lockAppend i =>
    simp only [TcpConnection.step] at hstep
    split at hstep <;> cases hstep
    exact ⟨fun _ _ => Or.inr (Or.inl ⟨_, rfl⟩), hwriting, hwatched⟩
  | append =>
    simp only [TcpConnection.step] at hstep
    split at hstep
    · have hlooks : 0 < c.looking + 1 := Nat.succ_pos _
      split at hstep
      · rename_i happend
        cases hstep
        exact ⟨fun _ _ => Or.inr (Or.inr (Or.inr (Or.inl hlooks))), fun _ _ => BufferWriter.append_ne_nil happend, hwatched⟩
      · cases hstep
        exact ⟨fun _ _ => Or.inr (Or.inr (Or.inr (Or.inl hlooks))), hwriting, hwatched⟩
    · cases hstep
  | writable =>
    simp only [TcpConnection.step] at hstep
    split at hstep <;> cases hstep
    exact ⟨fun _ _ => Or.inr (Or.inr (Or.inr (Or.inl (Nat.succ_pos _)))), hwriting, hwatched⟩
  | look =>
    simp only [TcpConnection.step] at hstep
    split at hstep <;> cases hstep
    refine ⟨fun hopen _ => ?_, hwriting, hwatched⟩
    have hclosed : c.isClosed = false := hopen
    simp only [hclosed, Bool.false_eq_true, if_false]
    exact Or.inr (Or.inr (Or.inr (Or.inr (Nat.succ_pos _))))
  | tryLock =>
    simp only [TcpConnection.step] at hstep
    split at hstep
    · split at hstep
      · cases hstep
        exact ⟨fun _ _ => Or.inr (Or.inr (Or.inl rfl)), hwriting, hwatched⟩
      · rename_i held hheld
        cases hstep
        refine ⟨fun _ _ => ?_, hwriting, hwatched⟩
        -- A section of `Send` or of `HandleWrite` has its own write still to come.
        cases held with
        | append data => exact Or.inr (Or.inl ⟨data, hheld⟩)
        | write => exact Or.inr (Or.inr (Or.inl hheld))
        | other => exact absurd rfl hbusy
    · cases hstep
  | write answers =>
    simp only [TcpConnection.step] at hstep
    split at hstep <;> cases hstep
    unfold handleWrite
    dsimp only
    split
    · exact .of_closed (by simp)
    · refine ⟨fun _ hne => Or.inl ?_, fun _ hset => ?_, fun hopen => ?_⟩
      · rw [writing_updateWriting]
        simpa using hne
      · rw [writing_updateWriting] at hset
        simpa using hset
      · exact watched_updateWriting (hwatched (by simpa using hopen))
  | lockOther =>
    simp only [TcpConnection.step] at hstep
    split at hstep <;> cases hstep
    rename_i hfree
    refine ⟨fun hopen hne => ?_, hwriting, hwatched⟩
    rcases hleft hopen hne with hset | ⟨data, hheld⟩ | hheld | hnext
    · exact Or.inl hset
    · rw [hfree] at hheld
      cases hheld
    · rw [hfree] at hheld
      cases hheld
    · exact Or.inr (Or.inr (Or.inr hnext))
  | unlockOther close =>
    simp only [TcpConnection.step] at hstep
    split at hstep <;> cases hstep
    rename_i hheld
    cases close with
    | true => exact .of_closed (by simp)
    | false => exact hunlocked hheld c.closing
  | unlockDisconnect =>
    simp only [TcpConnection.step] at hstep
    split at hstep <;> cases hstep
    rename_i hheld
    exact hunlocked hheld _
  | close =>
    simp only [TcpConnection.step] at hstep
    split at hstep <;> cases hstep
    exact .of_closed (by simp)

/-- The same over a log. -/
theorem armed_step (log : List (TcpStep × TcpEvent)) (c : TcpConnection) (i : TcpStep) (event : TcpEvent) (c' : TcpConnection)
    (h : (∀ entry ∈ log, entry.2 ≠ .busy .other) → Armed c) (hstep : TcpConnection.step i c = .ok (event, c'))
    (hbusy : ∀ entry ∈ log ++ [(i, event)], entry.2 ≠ .busy .other) : Armed c' := by
  rw [List.forall_mem_append] at hbusy
  exact (h hbusy.1).step (hbusy.2 (i, event) (by simp)) hstep

end TcpConnection

end AuthVideo.Xop
