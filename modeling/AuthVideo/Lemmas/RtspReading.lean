import AuthVideo.Lemmas.RtspConnection
import AuthVideo.Lib.Lines

/-!
# What the parser and the connection make of a piece of a request
-/

namespace AuthVideo.Xop

open Lines

/-- The reader and the request behind a call of `ParseRequest` that returns true. -/
def Parsed (b : BufferReader) (r r' : RtspRequest) (rest : Bytes) : Prop :=
  ∃ b', r.parseRequest b = .ok (true, r', b') ∧ b'.readable = rest ∧ b'.writerIndex ≤ b.writerIndex

namespace RtspRequest

variable {b : BufferReader} {r r₁ r₂ : RtspRequest} {l m t : Bytes}

/-- No line has come to its end. -/
theorem parsed_unfinished (hstate : r.state = .parseRequestLine) (hhead : b.readable.head? ≠ some 36)
    (hb : Unfinished 13 b.readable) : Parsed b r r b.readable := by
  have hfirst : b.findFirstCrlf = none := first_unfinished (by decide) hb
  refine ⟨b, ?_, rfl, le_refl _⟩
  simp [parseRequest, hhead, hstate, firstTurn, hfirst, bind, Except.bind, pure, Except.pure]

/-- A line that is no request line. -/
theorem parsed_ignored (hstate : r.state = .parseRequestLine) (hhead : b.readable.head? ≠ some 36) (hl : (13 : UInt8) ∉ l)
    (hb : b.readable = l ++ (13 :: 10 :: t)) (hline : r.parseRequestLine l = .ok (true, r)) : Parsed b r r t := by
  have hfirst : b.findFirstCrlf = some l.length := by
    unfold BufferReader.findFirstCrlf
    rw [hb]
    exact first_end hl t
  refine ⟨b.retrieve (l.length + 2), ?_, ?_, BufferReader.writerIndex_retrieve_le _ _⟩
  · have htake : b.readable.take l.length = l := by rw [hb, List.take_left']; rfl
    simp [parseRequest, hhead, hstate, firstTurn, hfirst, htake, hline, bind, Except.bind, pure, Except.pure]
  · rw [BufferReader.readable_retrieve, hb]
    simp

/-- The request line, and no header line has come to its end. -/
theorem parsed_line (hstate : r.state = .parseRequestLine) (hhead : b.readable.head? ≠ some 36) (hl : (13 : UInt8) ∉ l)
    (hb : b.readable = l ++ (13 :: 10 :: t)) (ht : Unfinished 13 t) (hline : r.parseRequestLine l = .ok (true, r₁))
    (hstate₁ : r₁.state = .parseHeadersLine) : Parsed b r r₁ t := by
  have hfirst : b.findFirstCrlf = some l.length := by
    unfold BufferReader.findFirstCrlf
    rw [hb]
    exact first_end hl t
  have hreadable : (b.retrieve (l.length + 2)).readable = t := by
    rw [BufferReader.readable_retrieve, hb]
    simp
  have hlast : (b.retrieve (l.length + 2)).findLastCrlf = none := by
    unfold BufferReader.findLastCrlf
    rw [hreadable]
    exact last_unfinished (by decide) ht
  refine ⟨b.retrieve (l.length + 2), ?_, hreadable, BufferReader.writerIndex_retrieve_le _ _⟩
  have htake : b.readable.take l.length = l := by rw [hb, List.take_left']; rfl
  simp [parseRequest, hhead, hstate, firstTurn, hfirst, htake, hline, hstate₁, headersTurn, hlast, bind, Except.bind, pure, Except.pure]

/-- The request line with some header lines. -/
theorem parsed_line_headers (hstate : r.state = .parseRequestLine) (hhead : b.readable.head? ≠ some 36) (hl : (13 : UInt8) ∉ l)
    (hb : b.readable = l ++ (13 :: 10 :: (m ++ (13 :: 10 :: t)))) (ht : Unfinished 13 t) (hline : r.parseRequestLine l = .ok (true, r₁))
    (hstate₁ : r₁.state = .parseHeadersLine) (hheaders : r₁.parseHeadersLine m = .ok (true, r₂)) : Parsed b r r₂ t := by
  have hfirst : b.findFirstCrlf = some l.length := by
    unfold BufferReader.findFirstCrlf
    rw [hb]
    exact first_end hl _
  have hreadable : (b.retrieve (l.length + 2)).readable = m ++ (13 :: 10 :: t) := by
    rw [BufferReader.readable_retrieve, hb]
    simp
  have hlast : (b.retrieve (l.length + 2)).findLastCrlf = some m.length := by
    unfold BufferReader.findLastCrlf
    rw [hreadable]
    exact last_end (by decide) ht m
  refine ⟨(b.retrieve (l.length + 2)).retrieve (m.length + 2), ?_, ?_,
    (BufferReader.writerIndex_retrieve_le _ _).trans (BufferReader.writerIndex_retrieve_le _ _)⟩
  · have htake : b.readable.take l.length = l := by rw [hb, List.take_left']; rfl
    have htake' : (m ++ (13 :: 10 :: t)).take m.length = m := List.take_left' rfl
    simp [parseRequest, hhead, hstate, firstTurn, hfirst, htake, hline, hstate₁, headersTurn, hlast, hreadable, htake', hheaders, bind,
      Except.bind, pure, Except.pure]
  · rw [BufferReader.readable_retrieve, hreadable]
    simp

/-- No further header line has come to its end. -/
theorem parsed_headers_unfinished (hstate : r.state = .parseHeadersLine) (hhead : b.readable.head? ≠ some 36)
    (hb : Unfinished 13 b.readable) : Parsed b r r b.readable := by
  have hlast : b.findLastCrlf = none := last_unfinished (by decide) hb
  refine ⟨b, ?_, rfl, le_refl _⟩
  simp [parseRequest, hhead, hstate, headersTurn, hlast, pure, Except.pure]

/-- Some more header lines. -/
theorem parsed_headers (hstate : r.state = .parseHeadersLine) (hhead : b.readable.head? ≠ some 36)
    (hb : b.readable = m ++ (13 :: 10 :: t)) (ht : Unfinished 13 t) (hheaders : r.parseHeadersLine m = .ok (true, r₁)) :
    Parsed b r r₁ t := by
  have hlast : b.findLastCrlf = some m.length := by
    unfold BufferReader.findLastCrlf
    rw [hb]
    exact last_end (by decide) ht m
  refine ⟨b.retrieve (m.length + 2), ?_, ?_, BufferReader.writerIndex_retrieve_le _ _⟩
  · have htake : b.readable.take m.length = m := by rw [hb, List.take_left']; rfl
    simp [parseRequest, hhead, hstate, headersTurn, hlast, htake, hheaders, bind, Except.bind, pure, Except.pure]
  · rw [BufferReader.readable_retrieve, hb]
    simp

end RtspRequest

/-! ## The connection -/

/-- A reader that holds no interleaved packet is left as it is. -/
theorem handleRtcp_of_head_ne {b : BufferReader} (h : b.readable.head? ≠ some 36) : RtspConnection.handleRtcp b = b := by
  unfold RtspConnection.handleRtcp
  split
  · rename_i heq
    rw [heq] at h
    simp at h
  · rfl

section Read

variable {H : Bytes → Bytes} {a : RtspArrival} {c : RtspConnection} {rest : Bytes} {r' : RtspRequest}

/-- What a `recv` of some bytes needs. -/
structure Readable (a : RtspArrival) (c : RtspConnection) : Prop where
  isOpen : c.isClosed = false
  ne_nil : a.bytes ≠ []
  length_le : a.bytes.length ≤ maxBytesPerRead
  room : c.readBuffer.writerIndex + maxBytesPerRead ≤ maxBufferSize

/-- `Read` and `ParseRequest`. -/
theorem Readable.parse (h : Readable a c)
    (hparsed : ∀ b : BufferReader, b.readable = c.readBuffer.readable ++ a.bytes → Parsed b c.request r' rest) :
    ∃ b b', c.readBuffer.read a.bytes = some b ∧ 0 < b.readableBytes ∧ c.request.parseRequest b = .ok (true, r', b') ∧
      b'.readable = rest ∧ b'.writerIndex ≤ c.readBuffer.writerIndex + a.bytes.length := by
  obtain ⟨b, hread⟩ := BufferReader.exists_read h.ne_nil h.room
  have htake : a.bytes.take maxBytesPerRead = a.bytes := List.take_of_length_le h.length_le
  have hreadable := BufferReader.readable_read hread
  have hwriter := BufferReader.writerIndex_read hread
  rw [htake] at hreadable hwriter
  obtain ⟨b', hparse, hrest, hle⟩ := hparsed b hreadable
  have hpos := List.length_pos_iff.mpr h.ne_nil
  refine ⟨b, b', hread, ?_, hparse, hrest, hwriter ▸ hle⟩
  rw [← b.length_readable, hreadable, List.length_append]
  omega

/-- A read that does not complete a request. -/
theorem Readable.waits (h : Readable a c)
    (hparsed : ∀ b : BufferReader, b.readable = c.readBuffer.readable ++ a.bytes → Parsed b c.request r' rest)
    (hgotAll : r'.state ≠ .gotAll) (hhead : rest.head? ≠ some 36) (hfew : rest.length ≤ RtspConnection.maxRtspMessageSize) :
    ∃ b', c.handleRead H a = .ok ([], a.server, { c with request := r', readBuffer := b' }) ∧ b'.readable = rest ∧
      b'.writerIndex ≤ c.readBuffer.writerIndex + a.bytes.length := by
  obtain ⟨b, b', hread, hpos, hparse, hrest, hle⟩ := h.parse hparsed
  have hlong : ¬ RtspConnection.maxRtspMessageSize < b'.readableBytes := by
    rw [← b'.length_readable, hrest]
    omega
  have hrtcp : RtspConnection.handleRtcp b' = b' := handleRtcp_of_head_ne (hrest ▸ hhead)
  have hnot : r'.gotAll = false := by simpa [RtspRequest.gotAll] using hgotAll
  refine ⟨b', ?_, hrest, hle⟩
  by_cases hmethod : r'.method = .rtcp <;>
    simp [RtspConnection.handleRead, RtspConnection.onRead, RtspConnection.handleRtspRequest, h.isOpen, hread, hparse, hnot, hrtcp, hlong,
      hmethod, Nat.ne_of_gt hpos, bind, Except.bind, pure, Except.pure]

/-- A read that completes a request. -/
theorem Readable.answers (h : Readable a c)
    (hparsed : ∀ b : BufferReader, b.readable = c.readBuffer.readable ++ a.bytes → Parsed b c.request r' rest)
    (hgotAll : r'.state = .gotAll) (hmethod : r'.method ≠ .rtcp) (hfew : rest.length ≤ RtspConnection.maxRtspMessageSize) :
    ∃ b', b'.readable = rest ∧ b'.writerIndex ≤ c.readBuffer.writerIndex + a.bytes.length ∧
      ∀ events server c₁, { c with request := r', readBuffer := b' }.handleMethod H a = .ok (events, server, c₁) →
        c₁.readBuffer = b' → c.handleRead H a = .ok (events, server, { c₁ with request := c₁.request.reset }) := by
  obtain ⟨b, b', hread, hpos, hparse, hrest, hle⟩ := h.parse hparsed
  refine ⟨b', hrest, hle, fun events server c₁ hhandle hsame => ?_⟩
  have hlong : ¬ RtspConnection.maxRtspMessageSize < c₁.readBuffer.readableBytes := by
    rw [hsame, ← b'.length_readable, hrest]
    omega
  have hgot : r'.gotAll = true := by simpa [RtspRequest.gotAll] using hgotAll
  rw [h.isOpen] at hhandle
  simp [RtspConnection.handleRead, RtspConnection.onRead, RtspConnection.handleRtspRequest, h.isOpen, hread, hparse, hgot, hmethod,
    hhandle, hlong, Nat.ne_of_gt hpos, bind, Except.bind, pure, Except.pure]

end Read

end AuthVideo.Xop
