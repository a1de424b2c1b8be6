import AuthVideo.Net.BufferReader

/-!
# What the methods of a reader do to its readable bytes
-/

namespace AuthVideo.Xop

namespace BufferReader

@[simp] theorem readable_new : new.readable = [] := rfl

@[simp] theorem writerIndex_new : new.writerIndex = 0 := rfl

@[simp] theorem readable_retrieveAll (b : BufferReader) : b.retrieveAll.readable = [] := rfl

@[simp] theorem writerIndex_retrieveAll (b : BufferReader) : b.retrieveAll.writerIndex = 0 := rfl

@[simp] theorem buffer_retrieveAll (b : BufferReader) : b.retrieveAll.buffer = b.buffer := rfl

/-- As many bytes are readable as the indices say. -/
theorem length_readable (b : BufferReader) : b.readable.length = b.readableBytes := by
  have hwriter := b.writer_le
  simp only [readable, readableBytes, List.length_drop, List.length_take]
  omega

/-- `Retrieve` takes bytes off the front, and all of them where it is asked for too many. -/
@[simp] theorem readable_retrieve (len : ℕ) (b : BufferReader) : (b.retrieve len).readable = b.readable.drop len := by
  have hlength := b.length_readable
  unfold retrieve
  split
  · rename_i hlen
    split
    · have hall : b.readable.length ≤ len := by
        rw [hlength, readableBytes]
        omega
      rw [readable_retrieveAll, List.drop_eq_nil_of_le hall]
    · simp [readable, List.drop_drop, Nat.add_comm]
  · rename_i hlen
    rw [readable_retrieveAll, List.drop_eq_nil_of_le (by omega)]

/-- `Retrieve` leaves the vector as it is. -/
@[simp] theorem buffer_retrieve (len : ℕ) (b : BufferReader) : (b.retrieve len).buffer = b.buffer := by
  unfold retrieve
  split
  · split <;> rfl
  · rfl

/-- It does not move the end. -/
theorem writerIndex_retrieve_le (len : ℕ) (b : BufferReader) : (b.retrieve len).writerIndex ≤ b.writerIndex := by
  unfold retrieve
  split
  · split <;> simp
  · simp

/-- What `recv` has put behind the readable bytes. -/
theorem readable_write {bytes : Bytes} {b : BufferReader} (h : bytes.length ≤ b.writableBytes) :
    (b.write bytes h).readable = b.readable ++ bytes := by
  have hreader := b.reader_le
  have hwriter := b.writer_le
  have hlength : (b.buffer.take b.writerIndex).length = b.writerIndex := by
    rw [List.length_take]
    omega
  have htake : (b.write bytes h).buffer.take (b.writerIndex + bytes.length) = b.buffer.take b.writerIndex ++ bytes := by
    unfold write
    rw [List.take_append, hlength, List.take_of_length_le (by omega), Nat.add_sub_cancel_left, List.take_left']
    rfl
  unfold readable
  rw [show (b.write bytes h).writerIndex = b.writerIndex + bytes.length from rfl, htake,
    show (b.write bytes h).readerIndex = b.readerIndex from rfl, List.drop_append_of_le_length (by omega)]

/-- The longer vector holds the same. -/
theorem readable_grow {b b' : BufferReader} (h : b.grow = some b') : b'.readable = b.readable := by
  have hwriter := b.writer_le
  unfold grow at h
  split at h
  · split at h
    · cases h
    · cases h
      simp [readable, List.take_append_of_le_length hwriter]
  · cases h
    rfl

/-- It ends where it ended. -/
theorem writerIndex_grow {b b' : BufferReader} (h : b.grow = some b') : b'.writerIndex = b.writerIndex := by
  unfold grow at h
  split at h
  · split at h
    · cases h
    · cases h
      rfl
  · cases h
    rfl

/-- When there is no room to be had. -/
theorem grow_eq_none_iff (b : BufferReader) :
    b.grow = none ↔ b.writableBytes < maxBytesPerRead ∧ maxBufferSize < b.buffer.length := by
  unfold grow
  by_cases hroom : b.writableBytes < maxBytesPerRead <;> by_cases hlong : maxBufferSize < b.buffer.length <;>
    simp [hroom, hlong]

section Read

variable {b b' : BufferReader} {bytes : Bytes}

/-- `Read` is `grow` and the bytes. -/
theorem exists_of_read (h : b.read bytes = some b') :
    bytes ≠ [] ∧ ∃ grown, ∃ hroom, b.grow = some grown ∧ b' = grown.write (bytes.take maxBytesPerRead) hroom := by
  unfold read at h
  split at h
  · cases h
  · rename_i grown hgrow
    split at h
    · cases h
    · rename_i hne
      cases h
      exact ⟨hne, grown, _, hgrow, rfl⟩

/-- `Read` puts the bytes behind the others. -/
theorem readable_read (h : b.read bytes = some b') : b'.readable = b.readable ++ bytes.take maxBytesPerRead := by
  obtain ⟨-, grown, hroom, hgrow, rfl⟩ := exists_of_read h
  rw [readable_write, readable_grow hgrow]

/-- Where the readable bytes end after `Read`. -/
theorem writerIndex_read (h : b.read bytes = some b') : b'.writerIndex = b.writerIndex + (bytes.take maxBytesPerRead).length := by
  obtain ⟨-, grown, hroom, hgrow, rfl⟩ := exists_of_read h
  rw [← writerIndex_grow hgrow]
  rfl

/-- When `Read` gives up. -/
theorem read_eq_none_iff : b.read bytes = none ↔ bytes = [] ∨ b.writableBytes < maxBytesPerRead ∧ maxBufferSize < b.buffer.length := by
  rw [← grow_eq_none_iff]
  unfold read
  split
  · rename_i hnone
    simp [hnone]
  · rename_i grown hsome
    by_cases hbytes : bytes = [] <;> simp [hbytes, hsome]

/-- Otherwise it reads. -/
theorem exists_read (hbytes : bytes ≠ []) (hroom : b.writerIndex + maxBytesPerRead ≤ maxBufferSize) : ∃ b', b.read bytes = some b' := by
  rcases hread : b.read bytes with _ | b'
  · rcases read_eq_none_iff.mp hread with hnil | ⟨hwritable, hlong⟩
    · exact absurd hnil hbytes
    · unfold writableBytes at hwritable
      omega
  · exact ⟨b', rfl⟩

end Read

end BufferReader

end AuthVideo.Xop
