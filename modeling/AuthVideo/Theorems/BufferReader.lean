import AuthVideo.Lemmas.BufferReader

/-!
# Theorem 67: the reader of a connection

`Read` may be called as long as the connection lives, and the vector is never moved to the front.
-/

namespace AuthVideo.Xop

namespace BufferReader

/-- What holds of a reader behind its log. The vector grows by whole calls, and the end counts what came since the reader was
empty. -/
structure Logged (log : List (ReaderCall × ReaderEvent)) (b : BufferReader) : Prop where
  received : receivedOf log = removedOf log ++ b.readable
  length_mod : b.buffer.length % maxBytesPerRead = 2048
  length_le : b.buffer.length ≤ maxBufferSize + 2048
  since : sinceEmpty log = (b.readableBytes, b.writerIndex)

theorem logged_new : Logged [] new := by
  have hlength : new.buffer.length = 2048 := List.length_replicate
  refine ⟨rfl, ?_, ?_, rfl⟩
  · rw [hlength]
    rfl
  · rw [hlength]
    exact Nat.le_add_left _ _

/-- The rest of a vector behind `grow`. -/
theorem grow_keeps {b b' : BufferReader} (h : b.grow = some b') (hmod : b.buffer.length % maxBytesPerRead = 2048)
    (hle : b.buffer.length ≤ maxBufferSize + 2048) :
    b'.buffer.length % maxBytesPerRead = 2048 ∧ b'.buffer.length ≤ maxBufferSize + 2048 := by
  unfold grow at h
  split at h
  · split at h
    · cases h
    · cases h
      simp only [maxBytesPerRead, maxBufferSize, List.length_append, List.length_replicate] at *
      omega
  · cases h
    exact ⟨hmod, hle⟩

/-- The log behind one more entry. -/
theorem sinceEmpty_append (log : List (ReaderCall × ReaderEvent)) (entry : ReaderCall × ReaderEvent) :
    sinceEmpty (log ++ [entry]) =
      if (sinceEmpty log).1 + entry.2.received.length - entry.2.removed.length = 0 then (0, 0)
      else ((sinceEmpty log).1 + entry.2.received.length - entry.2.removed.length,
        (sinceEmpty log).2 + entry.2.received.length) := by
  unfold sinceEmpty
  rw [List.foldl_append]
  rfl

/-- A reader whose end is not at the front has bytes to read, so an empty one starts again from the front. -/
theorem retrieve_indices (len : ℕ) (b : BufferReader) :
    ((b.retrieve len).readableBytes, (b.retrieve len).writerIndex) =
      if b.readableBytes - len = 0 then (0, 0) else (b.readableBytes - len, b.writerIndex) := by
  have hreader := b.reader_le
  unfold retrieve
  split
  · rename_i hlen
    unfold readableBytes at hlen ⊢
    split
    · rw [if_pos (by omega)]
      rfl
    · rw [if_neg (by omega)]
      simp only [Prod.mk.injEq, and_true]
      omega
  · rw [if_pos (by omega)]
    rfl

theorem logged_step (log : List (ReaderCall × ReaderEvent)) (b : BufferReader) (call : ReaderCall) (event : ReaderEvent)
    (b' : BufferReader) (h : Logged log b) (hstep : step call b = .ok (event, b')) : Logged (log ++ [(call, event)]) b' := by
  obtain ⟨hreceived, hmod, hle, hsince⟩ := h
  have hlength := b.length_readable
  rcases call with bytes | len | _
  · simp only [step] at hstep
    rcases hread : b.read bytes with _ | grown <;> rw [hread] at hstep <;> cases hstep
    have hreadable := readable_read hread
    have hwriter := writerIndex_read hread
    obtain ⟨hne, grown, hroom, hgrow, rfl⟩ := exists_of_read hread
    obtain ⟨hmod', hle'⟩ := grow_keeps hgrow hmod hle
    have hbuffer : (grown.write (bytes.take maxBytesPerRead) hroom).buffer.length = grown.buffer.length := by
      have hend := grown.writer_le
      unfold writableBytes at hroom
      simp only [write, List.length_append, List.length_take, List.length_drop] at hroom ⊢
      omega
    have hpos : 0 < (bytes.take maxBytesPerRead).length := by
      have := List.length_pos_iff.mpr hne
      simp only [maxBytesPerRead, List.length_take]
      omega
    have hbytes := congrArg List.length hreadable
    rw [length_readable, List.length_append, hlength] at hbytes
    refine ⟨?_, by rw [hbuffer]; exact hmod', by rw [hbuffer]; exact hle', ?_⟩
    · rw [hreadable]
      simp only [receivedOf, removedOf] at hreceived
      simp [receivedOf, removedOf, hreceived]
    · rw [sinceEmpty_append, hsince, hbytes, hwriter, if_neg (by simp only [List.length_nil]; omega)]
      simp
  · cases hstep
    refine ⟨?_, by simpa using hmod, by simpa using hle, ?_⟩
    · have hremoved : (if len ≤ b.readableBytes then b.readable.take len else b.readable) = b.readable.take len := by
        split
        · rfl
        · rw [List.take_of_length_le (by omega)]
      rw [hremoved]
      simpa [receivedOf, removedOf] using hreceived
    · have hcount : (if len ≤ b.readableBytes then b.readable.take len else b.readable).length = min len b.readableBytes := by
        split
        · rw [List.length_take, hlength]
        · omega
      rw [sinceEmpty_append, hsince, retrieve_indices, hcount, List.length_nil]
      have hmin : b.readableBytes + 0 - min len b.readableBytes = b.readableBytes - len := by omega
      rw [hmin, Nat.add_zero]
  · cases hstep
    refine ⟨?_, hmod, hle, ?_⟩
    · simpa [receivedOf, removedOf] using hreceived
    · rw [sinceEmpty_append, hsince, hlength, List.length_nil, if_pos (by omega)]
      rfl

/-- When a reader in such a state gives up. -/
theorem Logged.gives_up_iff {log : List (ReaderCall × ReaderEvent)} {b : BufferReader} (h : Logged log b) (bytes : Bytes) :
    b.read bytes = none ↔ bytes = [] ∨ 102397952 < b.writerIndex := by
  obtain ⟨-, hmod, hle, -⟩ := h
  have hwriter := b.writer_le
  rw [read_eq_none_iff]
  refine or_congr_right ?_
  unfold writableBytes maxBytesPerRead maxBufferSize at *
  omega

end BufferReader

open BufferReader

/-- Theorem 67 (a queue that is never moved). Whatever is read and taken off, in whatever order, the readable bytes are those that
came and have not been taken off, and the vector stays below 102402049 bytes. `Read` gives up on a connection that still sends
exactly when more than 102397952 bytes have come since the reader was last empty, however few of them wait. -/
theorem reader_is_a_queue (calls : List ReaderCall) (b : BufferReader) (h : (BufferReader.run calls).2 = .ok b) :
    receivedOf (BufferReader.run calls).1 = removedOf (BufferReader.run calls).1 ++ b.readable ∧ b.buffer.length ≤ 102402048 ∧
      ∀ bytes, bytes ≠ [] → (b.read bytes = none ↔ 102397952 < (sinceEmpty (BufferReader.run calls).1).2) := by
  have hlog := Machine.run_log Logged logged_step logged_new calls
  unfold BufferReader.run at h ⊢
  rcases hrun : Machine.run step calls new with ⟨log, e | b'⟩ <;> rw [hrun] at h hlog <;> cases h
  refine ⟨hlog.received, hlog.length_le, fun bytes hbytes => ?_⟩
  have hsince : (sinceEmpty log).2 = b.writerIndex := by rw [show sinceEmpty log = _ from hlog.since]
  rw [hlog.gives_up_iff bytes, hsince]
  simp [hbytes]

/-- Two reads with a part taken off between them. -/
theorem reader_is_a_queue_parts :
    ∃ b, (BufferReader.run [.read [1, 2, 3], .retrieve 2, .read [4]]).2 = .ok b ∧ b.readable = [3, 4] ∧ b.read [5] ≠ none := by
  obtain ⟨b₁, h₁⟩ := exists_read (b := new) (by simp : ([1, 2, 3] : Bytes) ≠ []) (by decide)
  have hend : (b₁.retrieve 2).writerIndex + maxBytesPerRead ≤ maxBufferSize := by
    have hle := writerIndex_retrieve_le 2 b₁
    rw [writerIndex_read h₁, writerIndex_new] at hle
    refine (Nat.add_le_add_right hle _).trans ?_
    decide
  obtain ⟨b₂, h₂⟩ := exists_read (by simp : ([4] : Bytes) ≠ []) hend
  have hrun : (BufferReader.run [.read [1, 2, 3], .retrieve 2, .read [4]]).2 = .ok b₂ := by
    simp [BufferReader.run, Machine.run, step, h₁, h₂]
  obtain ⟨-, -, hread⟩ := reader_is_a_queue _ b₂ hrun
  refine ⟨b₂, hrun, ?_, ?_⟩
  · rw [readable_read h₂, readable_retrieve, readable_read h₁]
    rfl
  · have hsince : (sinceEmpty (BufferReader.run [.read [1, 2, 3], .retrieve 2, .read [4]]).1).2 ≤ 102397952 := by
      have hlength : b₁.readableBytes = 3 := by
        rw [← length_readable, readable_read h₁]
        rfl
      simp [BufferReader.run, Machine.run, step, h₁, h₂, sinceEmpty, hlength, maxBytesPerRead, readable_read h₁]
    rw [ne_eq, hread [5] (by simp)]
    omega

end AuthVideo.Xop
