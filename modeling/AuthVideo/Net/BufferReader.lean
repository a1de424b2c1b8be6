import AuthVideo.Cipher.ZucPy
import AuthVideo.Lib.Search
import AuthVideo.Lib.Machine

/-!
# What a connection has received

`BufferReader` keeps the bytes between two indices of a vector. `Read` asks `recv` for 4096 bytes and makes the vector longer
where there is no room for them; nothing is ever moved to the front.
-/

namespace AuthVideo.Xop

/-- `BufferReader`. -/
structure BufferReader where
  buffer : Bytes
  readerIndex : ℕ
  writerIndex : ℕ
  reader_le : readerIndex ≤ writerIndex
  writer_le : writerIndex ≤ buffer.length
  deriving DecidableEq

/-- `kCRLF`. -/
def crlf : Bytes := [13, 10]

/-- `MAX_BYTES_PER_READ`. -/
def maxBytesPerRead : ℕ := 4096

/-- `MAX_BUFFER_SIZE`. -/
def maxBufferSize : ℕ := 1024 * 100000

namespace BufferReader

/-- The constructor. -/
def new : BufferReader := ⟨List.replicate 2048 0, 0, 0, le_refl 0, Nat.zero_le _⟩

/-- `ReadableBytes`. -/
def readableBytes (b : BufferReader) : ℕ := b.writerIndex - b.readerIndex

/-- `WritableBytes`. -/
def writableBytes (b : BufferReader) : ℕ := b.buffer.length - b.writerIndex

/-- The bytes from `Peek` to `BeginWrite`. -/
def readable (b : BufferReader) : Bytes := (b.buffer.take b.writerIndex).drop b.readerIndex

/-- `FindFirstCrlf`, counted from `Peek`. -/
def findFirstCrlf (b : BufferReader) : Option ℕ := Search.first crlf b.readable

/-- `FindLastCrlf`, counted from `Peek`. -/
def findLastCrlf (b : BufferReader) : Option ℕ := Search.last crlf b.readable

/-- `RetrieveAll`. -/
def retrieveAll (b : BufferReader) : BufferReader := ⟨b.buffer, 0, 0, le_refl 0, Nat.zero_le _⟩

/-- `Retrieve`. -/
def retrieve (len : ℕ) (b : BufferReader) : BufferReader :=
  if h : len ≤ b.readableBytes then
    if b.readerIndex + len = b.writerIndex then b.retrieveAll
    else { b with readerIndex := b.readerIndex + len, reader_le := by unfold readableBytes at h; have := b.reader_le; omega }
  else b.retrieveAll

/-- The room that `Read` makes: none where the vector has grown too long. -/
def grow (b : BufferReader) : Option BufferReader :=
  if b.writableBytes < maxBytesPerRead then
    if maxBufferSize < b.buffer.length then none
    else some { b with
      buffer := b.buffer ++ List.replicate maxBytesPerRead 0
      writer_le := by rw [List.length_append]; exact Nat.le_add_right_of_le b.writer_le }
  else some b

/-- Behind `grow` there is room for a call of `recv`. -/
theorem room_of_grow {b b' : BufferReader} (h : b.grow = some b') : maxBytesPerRead ≤ b'.writableBytes := by
  unfold grow at h
  split at h
  · split at h
    · cases h
    · cases h
      have hwriter := b.writer_le
      simp only [writableBytes, List.length_append, List.length_replicate]
      omega
  · cases h
    omega

/-- `recv` puts bytes behind the readable ones. -/
def write (bytes : Bytes) (b : BufferReader) (_h : bytes.length ≤ b.writableBytes) : BufferReader where
  buffer := b.buffer.take b.writerIndex ++ (bytes ++ b.buffer.drop (b.writerIndex + bytes.length))
  readerIndex := b.readerIndex
  writerIndex := b.writerIndex + bytes.length
  reader_le := Nat.le_add_right_of_le b.reader_le
  writer_le := by
    have hwriter := b.writer_le
    unfold writableBytes at _h
    simp only [List.length_append, List.length_take, List.length_drop]
    omega

/-- `Read`, where `recv` has these bytes to give, and `none` where it returns 0. -/
def read (bytes : Bytes) (b : BufferReader) : Option BufferReader :=
  match hgrow : b.grow with
  | none => none
  | some b' =>
    if bytes = [] then none
    else some (b'.write (bytes.take maxBytesPerRead) (by
      rw [List.length_take]
      exact (Nat.min_le_left _ _).trans (room_of_grow hgrow)))

end BufferReader

/-! ## What a connection does with its reader -/

/-- A call of a method. -/
inductive ReaderCall where
  | read (bytes : Bytes)
  | retrieve (len : ℕ)
  | retrieveAll
  deriving DecidableEq

/-- What goes in with a call, and what goes out. -/
structure ReaderEvent where
  received : Bytes
  removed : Bytes
  deriving DecidableEq

/-- One call. It raises where `Read` gives up. -/
def BufferReader.step : ReaderCall → BufferReader → Except Unit (ReaderEvent × BufferReader)
  | .read bytes, b =>
    match b.read bytes with
    | some b' => .ok (⟨bytes.take maxBytesPerRead, []⟩, b')
    | none => .error ()
  | .retrieve len, b => .ok (⟨[], if len ≤ b.readableBytes then b.readable.take len else b.readable⟩, b.retrieve len)
  | .retrieveAll, b => .ok (⟨[], b.readable⟩, b.retrieveAll)

/-- The log of a run of a new reader, and where it ends. -/
def BufferReader.run (calls : List ReaderCall) : List (ReaderCall × ReaderEvent) × Except Unit BufferReader :=
  Machine.run step calls new

/-! ## Logs -/

/-- What `recv` gave. -/
def receivedOf (log : List (ReaderCall × ReaderEvent)) : Bytes := (log.map fun entry => entry.2.received).flatten

/-- What was taken off. -/
def removedOf (log : List (ReaderCall × ReaderEvent)) : Bytes := (log.map fun entry => entry.2.removed).flatten

/-- How many bytes wait, and how many came since none did. -/
def sinceEmpty (log : List (ReaderCall × ReaderEvent)) : ℕ × ℕ :=
  log.foldl (fun (waiting, came) entry =>
    let waiting := waiting + entry.2.received.length - entry.2.removed.length
    if waiting = 0 then (0, 0) else (waiting, came + entry.2.received.length)) (0, 0)

end AuthVideo.Xop
