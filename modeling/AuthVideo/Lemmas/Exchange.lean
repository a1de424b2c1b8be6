import AuthVideo.Handshake
import AuthVideo.Lemmas.RtspReading

/-!
# The three requests of the board, in pieces

A request is some lines, the last of those that matter being the one that its method waits for. However it is cut, the parser is in
the request line, behind it, behind the number of the request, or has got all, with what is left of the tail in the reader.
-/

namespace AuthVideo

open Xop Lines

/-! ## Numbers in texts -/

/-- `%u` writes digits. -/
theorem isdigit_of_mem_percentU {n : UInt32} {b : UInt8} (hb : b ∈ percentU n) : isdigit b = true := by
  unfold percentU at hb
  obtain ⟨c, hc, rfl⟩ := List.mem_map.mp hb
  have hdigit := Nat.isDigit_of_mem_toDigits (by decide) (by decide) hc
  simp only [Char.isDigit, Bool.and_eq_true, decide_eq_true_eq] at hdigit
  have hlow : 48 ≤ c.toNat := hdigit.1
  have hhigh : c.toNat ≤ 57 := hdigit.2
  simp [isdigit, UInt8.le_iff_toNat_le]
  omega

/-- At least one. -/
theorem percentU_ne_nil (n : UInt32) : percentU n ≠ [] := by simp [percentU]

/-- At most five for a port. -/
theorem length_percentU_le (n : UInt16) : (percentU n.toUInt32).length ≤ 5 := by
  unfold percentU
  rw [List.length_map]
  refine (Nat.length_toDigits_le_iff (by decide) (by decide)).mpr ?_
  have := n.toNat_lt
  simp only [UInt16.toNat_toUInt32]
  omega

/-- A byte that is no digit is not among them. -/
theorem notMem_percentU {b : UInt8} (hb : isdigit b = false) (n : UInt32) : b ∉ percentU n := by
  intro hmem
  rw [isdigit_of_mem_percentU hmem] at hb
  cases hb

/-! ## Requests in pieces -/

/-- No header is known. -/
def noHeaders : HeaderLineParam := ⟨none, none, none, none, none⟩

/-- The lines of a request, and what the parser makes of them. -/
structure Exchange where
  line : Bytes
  cseq : Bytes
  deciding : Bytes
  tail : List Bytes
  method : Method
  param : RequestLineParam
  number : UInt32
  final : MediaChannelId → TransportMode → RtspRequest

namespace Exchange

/-- The lines. -/
def lines (x : Exchange) : List Bytes := x.line :: x.cseq :: x.deciding :: x.tail

/-- The text. -/
def text (x : Exchange) : Bytes := joined 13 10 x.lines

/-- The parser behind the request line. -/
def afterLine (x : Exchange) (channel : MediaChannelId) (transport : TransportMode) (auth : Bytes) : RtspRequest :=
  ⟨x.method, channel, transport, auth, some x.param, noHeaders, .parseHeadersLine⟩

/-- The parser behind the number of the request. -/
def afterCseq (x : Exchange) (channel : MediaChannelId) (transport : TransportMode) : RtspRequest :=
  ⟨x.method, channel, transport, [], some x.param, { noHeaders with cseq := some x.number }, .parseHeadersLine⟩

/-- The parser understands the lines, as many of the tail as may be there. -/
structure Understood (x : Exchange) : Prop where
  plain : ∀ l ∈ x.lines, (13 : UInt8) ∉ l
  heads : ∀ l ∈ x.lines, l.head? ≠ some 36
  short : x.text.length ≤ 256
  method_ne : x.method ≠ .rtcp
  line_ok : ∀ method channel transport auth,
    (⟨method, channel, transport, auth, none, noHeaders, .parseRequestLine⟩ : RtspRequest).parseRequestLine x.line =
      .ok (true, x.afterLine channel transport auth)
  cseq_ok : ∀ channel transport auth,
    (x.afterLine channel transport auth).parseHeadersLine x.cseq = .ok (true, x.afterCseq channel transport)
  both_ok : ∀ channel transport auth m,
    (x.afterLine channel transport auth).parseHeadersLine (between 13 10 x.cseq (x.deciding :: x.tail.take m)) =
      .ok (true, x.final channel transport)
  deciding_ok : ∀ channel transport m,
    (x.afterCseq channel transport).parseHeadersLine (between 13 10 x.deciding (x.tail.take m)) = .ok (true, x.final channel transport)
  final_state : ∀ channel transport, (x.final channel transport).state = .gotAll
  final_method : ∀ channel transport, (x.final channel transport).method = x.method

end Exchange

/-- The parser waits for a request line. -/
def AtRequestLine (r : RtspRequest) : Prop :=
  ∃ method channel transport auth, r = ⟨method, channel, transport, auth, none, noHeaders, .parseRequestLine⟩

theorem atRequestLine_new (method : Method) (channel : MediaChannelId) (transport : TransportMode) :
    AtRequestLine (.new method channel transport) :=
  ⟨method, channel, transport, [], rfl⟩

theorem atRequestLine_reset (r : RtspRequest) : AtRequestLine r.reset := ⟨r.method, r.channelId, r.transport, r.authResponse, rfl⟩

/-- Where the parser stands in a request, with the bytes that are still to come. -/
inductive Reading (x : Exchange) (c : RtspConnection) (toCome : Bytes) : Prop where
  | line (hfresh : AtRequestLine c.request) (hbytes : c.readBuffer.readable ++ toCome = x.text)
  | cseq (channel : MediaChannelId) (transport : TransportMode) (auth : Bytes) (hrequest : c.request = x.afterLine channel transport auth)
      (hbytes : c.readBuffer.readable ++ toCome = joined 13 10 (x.cseq :: x.deciding :: x.tail))
  | deciding (channel : MediaChannelId) (transport : TransportMode) (hrequest : c.request = x.afterCseq channel transport)
      (hbytes : c.readBuffer.readable ++ toCome = joined 13 10 (x.deciding :: x.tail))

/-- Something of a request is to come. -/
theorem Reading.ne_nil {x : Exchange} {c : RtspConnection} {toCome : Bytes} (h : Reading x c toCome)
    (hcut : Unfinished 13 c.readBuffer.readable) : toCome ≠ [] := by
  rintro rfl
  rcases h with ⟨-, hbytes⟩ | ⟨-, -, -, -, hbytes⟩ | ⟨-, -, -, hbytes⟩ <;> rw [List.append_nil] at hbytes <;> rw [hbytes] at hcut <;>
    exact not_unfinished_joined (by decide) _ _ hcut

/-- No more of it than there is. -/
theorem Reading.length_le {x : Exchange} {c : RtspConnection} {toCome : Bytes} (h : Reading x c toCome) : toCome.length ≤ x.text.length := by
  have htext : x.text.length = x.line.length + 2 + (x.cseq.length + 2 + (joined 13 10 (x.deciding :: x.tail)).length) := by
    simp only [Exchange.text, Exchange.lines, joined_cons x.line, joined_cons x.cseq, List.length_append, List.length_cons]
    omega
  rcases h with ⟨-, hbytes⟩ | ⟨-, -, -, -, hbytes⟩ | ⟨-, -, -, hbytes⟩
  · have hlen := congrArg List.length hbytes
    rw [List.length_append] at hlen
    omega
  · have hlen := congrArg List.length hbytes
    rw [joined_cons x.cseq, List.length_append, List.length_append, List.length_cons, List.length_cons] at hlen
    omega
  · have hlen := congrArg List.length hbytes
    rw [List.length_append] at hlen
    omega

/-! ## One read -/

/-- A stream of such lines does not begin like an interleaved packet. -/
theorem head_ne_of_prefix {ls : List Bytes} {p : Bytes} (hheads : ∀ l ∈ ls, l.head? ≠ some 36) (hp : p <+: joined 13 10 ls) :
    p.head? ≠ some 36 := by
  rcases ls with _ | ⟨l, ls⟩
  · rw [List.prefix_nil.mp hp]
    simp
  · rcases p with _ | ⟨b, p⟩
    · simp
    · rw [joined_cons] at hp
      have hl := hheads l List.mem_cons_self
      rcases l with _ | ⟨b', l⟩
      · rw [List.nil_append, List.cons_prefix_cons] at hp
        rw [hp.1]
        simp
      · rw [List.cons_append, List.cons_prefix_cons] at hp
        rw [hp.1]
        simpa using hl

/-- What is in the reader and to come, cut where the reader ends. -/
theorem cut_stream {ls : List Bytes} (hls : ∀ l ∈ ls, (13 : UInt8) ∉ l) {p toCome : Bytes} (h : p ++ toCome = joined 13 10 ls) :
    ∃ m t, p = joined 13 10 (ls.take m) ++ t ∧ t ++ toCome = joined 13 10 (ls.drop m) ∧ Unfinished 13 t := by
  obtain ⟨m, t, -, rfl, -, hunfinished⟩ := cut_joined hls (⟨toCome, h⟩ : p <+: joined 13 10 ls)
  refine ⟨m, t, rfl, ?_, hunfinished⟩
  have hsplit : joined 13 10 ls = joined 13 10 (ls.take m) ++ joined 13 10 (ls.drop m) := by
    rw [← joined_append, List.take_append_drop]
  rw [hsplit, List.append_assoc] at h
  exact List.append_cancel_left h

section Read

variable {H : Bytes → Bytes} {x : Exchange} {a : RtspArrival} {c : RtspConnection} {toCome : Bytes}

namespace Exchange

/-- What is left of a request is short. -/
theorem Understood.length_le (hx : x.Understood) {u v : List Bytes} (h : x.lines = u ++ v) {t : Bytes} (ht : t <+: joined 13 10 v) :
    t.length ≤ RtspConnection.maxRtspMessageSize := by
  have hshort := hx.short
  unfold Exchange.text at hshort
  rw [h, joined_append, List.length_append] at hshort
  have hle := ht.length_le
  simp only [RtspConnection.maxRtspMessageSize]
  omega

/-- It does not begin like an interleaved packet. -/
theorem Understood.head_ne (hx : x.Understood) {u v : List Bytes} (h : x.lines = u ++ v) {t : Bytes} (ht : t <+: joined 13 10 v) :
    t.head? ≠ some 36 :=
  head_ne_of_prefix (fun l hl => hx.heads l (h ▸ List.mem_append_right _ hl)) ht

/-- Its lines have no end in them. -/
theorem Understood.plain_right (hx : x.Understood) {u v : List Bytes} (h : x.lines = u ++ v) : ∀ l ∈ v, (13 : UInt8) ∉ l :=
  fun l hl => hx.plain l (h ▸ List.mem_append_right _ hl)

end Exchange

/-- What a read comes to: the parser is further in the request, or it has got all and the rest is in the reader. -/
def Advanced (H : Bytes → Bytes) (x : Exchange) (a : RtspArrival) (c : RtspConnection) (toCome : Bytes) : Prop :=
  (∃ r' b', c.handleRead H a = .ok ([], a.server, { c with request := r', readBuffer := b' }) ∧
      b'.writerIndex ≤ c.readBuffer.writerIndex + a.bytes.length ∧ Unfinished 13 b'.readable ∧
      Reading x { c with request := r', readBuffer := b' } toCome) ∨
    ∃ channel transport m b', b'.writerIndex ≤ c.readBuffer.writerIndex + a.bytes.length ∧
      b'.readable ++ toCome = joined 13 10 (x.tail.drop m) ∧ Unfinished 13 b'.readable ∧
      ∀ events server c₁,
        { c with request := x.final channel transport, readBuffer := b' }.handleMethod H a = .ok (events, server, c₁) →
        c₁.readBuffer = b' → c.handleRead H a = .ok (events, server, { c₁ with request := c₁.request.reset })

/-- A read after which the parser is in the request. -/
theorem Advanced.waits (hx : x.Understood) (ha : Readable a c) {u v : List Bytes} (hlines : x.lines = u ++ v) {t : Bytes}
    {r : RtspRequest} (ht : t ++ toCome = joined 13 10 v) (hcut : Unfinished 13 t) (hstate : r.state ≠ .gotAll)
    (hparsed : ∀ b : BufferReader, b.readable = c.readBuffer.readable ++ a.bytes → Parsed b c.request r t)
    (hreading : ∀ b' : BufferReader, b'.readable = t → Reading x { c with request := r, readBuffer := b' } toCome) :
    Advanced H x a c toCome := by
  obtain ⟨b', hread, hrest, hle⟩ := ha.waits hparsed hstate (hx.head_ne hlines ⟨toCome, ht⟩) (hx.length_le hlines ⟨toCome, ht⟩)
  exact Or.inl ⟨r, b', hread, hle, hrest ▸ hcut, hreading b' hrest⟩

/-- A read after which it has got all. -/
theorem Advanced.answers (hx : x.Understood) (ha : Readable a c) {m : ℕ} {t : Bytes} {channel : MediaChannelId} {transport : TransportMode}
    (ht : t ++ toCome = joined 13 10 (x.tail.drop m)) (hcut : Unfinished 13 t)
    (hparsed : ∀ b : BufferReader, b.readable = c.readBuffer.readable ++ a.bytes → Parsed b c.request (x.final channel transport) t) :
    Advanced H x a c toCome := by
  have hlines : x.lines = x.lines.take (m + 3) ++ x.tail.drop m := (List.take_append_drop (m + 3) x.lines).symm
  obtain ⟨b', hrest, hle, hanswer⟩ := ha.answers hparsed (hx.final_state channel transport)
    (by rw [hx.final_method]; exact hx.method_ne) (hx.length_le hlines ⟨toCome, ht⟩)
  exact Or.inr ⟨channel, transport, m, b', hle, by rw [hrest]; exact ht, hrest ▸ hcut, hanswer⟩

/-- A read where the request line is still to be parsed. -/
theorem advanced_line (hx : x.Understood) (hfresh : AtRequestLine c.request) (hbytes : c.readBuffer.readable ++ a.bytes ++ toCome = x.text)
    (ha : Readable a c) : Advanced H x a c toCome := by
  obtain ⟨m, t, hp, ht, hcut⟩ := cut_stream hx.plain hbytes
  have hhead := hx.head_ne (u := []) (v := x.lines) rfl ⟨toCome, hbytes⟩
  have hline := hx.plain x.line (by simp [Exchange.lines])
  obtain ⟨method, channel, transport, auth, hrequest⟩ := hfresh
  have hstate : c.request.state = .parseRequestLine := by rw [hrequest]
  have hparse : c.request.parseRequestLine x.line = .ok (true, x.afterLine channel transport auth) := by
    rw [hrequest]
    exact hx.line_ok method channel transport auth
  rcases m with _ | _ | _ | m
  · simp only [List.take_zero, joined_nil, List.nil_append] at hp
    refine .waits hx ha (u := []) rfl hbytes (hp ▸ hcut) (by rw [hstate]; simp)
      (fun b hb => hb ▸ RtspRequest.parsed_unfinished hstate (hb ▸ hhead) (hb ▸ hp ▸ hcut)) fun b' hb' => ?_
    exact .line ⟨method, channel, transport, auth, hrequest⟩ (by rw [hb']; exact hbytes)
  · have hp' : c.readBuffer.readable ++ a.bytes = x.line ++ (13 :: 10 :: t) := by simpa [Exchange.lines] using hp
    refine .waits hx ha (u := [x.line]) rfl ht hcut (by simp [Exchange.afterLine])
      (fun b hb => RtspRequest.parsed_line hstate (hb ▸ hhead) hline (hb.trans hp') hcut hparse rfl) fun b' hb' => ?_
    exact .cseq channel transport auth rfl (by rw [hb']; exact ht)
  · have hp' : c.readBuffer.readable ++ a.bytes = x.line ++ (13 :: 10 :: (x.cseq ++ (13 :: 10 :: t))) := by
      simpa [Exchange.lines] using hp
    refine .waits hx ha (u := [x.line, x.cseq]) rfl ht hcut (by simp [Exchange.afterCseq])
      (fun b hb => RtspRequest.parsed_line_headers hstate (hb ▸ hhead) hline (hb.trans hp') hcut hparse rfl
        (hx.cseq_ok channel transport auth)) fun b' hb' => ?_
    exact .deciding channel transport rfl (by rw [hb']; exact ht)
  · have hp' : c.readBuffer.readable ++ a.bytes =
        x.line ++ (13 :: 10 :: (between 13 10 x.cseq (x.deciding :: x.tail.take m) ++ (13 :: 10 :: t))) := by
      rw [hp, ← joined_eq_between]
      simp [Exchange.lines]
    exact .answers hx ha (m := m) ht hcut fun b hb => RtspRequest.parsed_line_headers hstate (hb ▸ hhead) hline (hb.trans hp') hcut hparse
      rfl (hx.both_ok channel transport auth m)

/-- A read where the number of the request is still to come. -/
theorem advanced_cseq (hx : x.Understood) {channel : MediaChannelId} {transport : TransportMode} {auth : Bytes}
    (hrequest : c.request = x.afterLine channel transport auth)
    (hbytes : c.readBuffer.readable ++ a.bytes ++ toCome = joined 13 10 (x.cseq :: x.deciding :: x.tail)) (ha : Readable a c) :
    Advanced H x a c toCome := by
  obtain ⟨m, t, hp, ht, hcut⟩ := cut_stream (hx.plain_right (u := [x.line]) rfl) hbytes
  have hhead := hx.head_ne (u := [x.line]) rfl ⟨toCome, hbytes⟩
  have hstate : c.request.state = .parseHeadersLine := by rw [hrequest]; rfl
  rcases m with _ | _ | m
  · simp only [List.take_zero, joined_nil, List.nil_append] at hp
    refine .waits hx ha (u := [x.line]) rfl hbytes (hp ▸ hcut) (by rw [hstate]; simp)
      (fun b hb => hb ▸ RtspRequest.parsed_headers_unfinished hstate (hb ▸ hhead) (hb ▸ hp ▸ hcut)) fun b' hb' => ?_
    exact .cseq channel transport auth hrequest (by rw [hb']; exact hbytes)
  · have hp' : c.readBuffer.readable ++ a.bytes = x.cseq ++ (13 :: 10 :: t) := by simpa using hp
    refine .waits hx ha (u := [x.line, x.cseq]) (r := x.afterCseq channel transport) rfl ht hcut (by simp [Exchange.afterCseq])
      (fun b hb => RtspRequest.parsed_headers hstate (hb ▸ hhead) (hb.trans hp') hcut
        (by rw [hrequest]; exact hx.cseq_ok channel transport auth)) fun b' hb' => ?_
    exact .deciding channel transport rfl (by rw [hb']; exact ht)
  · have hp' : c.readBuffer.readable ++ a.bytes = between 13 10 x.cseq (x.deciding :: x.tail.take m) ++ (13 :: 10 :: t) := by
      rw [hp, ← joined_eq_between]
      simp
    exact .answers hx ha (m := m) ht hcut fun b hb => RtspRequest.parsed_headers hstate (hb ▸ hhead) (hb.trans hp') hcut
      (by rw [hrequest]; exact hx.both_ok channel transport auth m)

/-- A read where the line that the method waits for is still to come. -/
theorem advanced_deciding (hx : x.Understood) {channel : MediaChannelId} {transport : TransportMode}
    (hrequest : c.request = x.afterCseq channel transport)
    (hbytes : c.readBuffer.readable ++ a.bytes ++ toCome = joined 13 10 (x.deciding :: x.tail)) (ha : Readable a c) :
    Advanced H x a c toCome := by
  obtain ⟨m, t, hp, ht, hcut⟩ := cut_stream (hx.plain_right (u := [x.line, x.cseq]) rfl) hbytes
  have hhead := hx.head_ne (u := [x.line, x.cseq]) rfl ⟨toCome, hbytes⟩
  have hstate : c.request.state = .parseHeadersLine := by rw [hrequest]; rfl
  rcases m with _ | m
  · simp only [List.take_zero, joined_nil, List.nil_append] at hp
    refine .waits hx ha (u := [x.line, x.cseq]) rfl hbytes (hp ▸ hcut) (by rw [hstate]; simp)
      (fun b hb => hb ▸ RtspRequest.parsed_headers_unfinished hstate (hb ▸ hhead) (hb ▸ hp ▸ hcut)) fun b' hb' => ?_
    exact .deciding channel transport hrequest (by rw [hb']; exact hbytes)
  · have hp' : c.readBuffer.readable ++ a.bytes = between 13 10 x.deciding (x.tail.take m) ++ (13 :: 10 :: t) := by
      rw [hp, ← joined_eq_between]
      simp
    exact .answers hx ha (m := m) ht hcut fun b hb => RtspRequest.parsed_headers hstate (hb ▸ hhead) (hb.trans hp') hcut
      (by rw [hrequest]; exact hx.deciding_ok channel transport m)

/-- However a request is cut, a read of the next part of it advances. -/
theorem Reading.read (hx : x.Understood) (h : Reading x c (a.bytes ++ toCome)) (ha : Readable a c) : Advanced H x a c toCome := by
  rcases h with ⟨hfresh, hbytes⟩ | ⟨channel, transport, auth, hrequest, hbytes⟩ | ⟨channel, transport, hrequest, hbytes⟩ <;>
    rw [← List.append_assoc] at hbytes
  · exact advanced_line hx hfresh hbytes ha
  · exact advanced_cseq hx hrequest hbytes ha
  · exact advanced_deciding hx hrequest hbytes ha

/-- A read behind a request: what is left of it are lines that are no request lines. The first of them may come to its end with
the bytes, and then the others stay in the reader, whatever they are. -/
theorem read_trailing {l v : Bytes} (hfresh : AtRequestLine c.request) (hl : (13 : UInt8) ∉ l) (hhead : l.head? ≠ some 36)
    (hv : v.head? ≠ some 36) (hshort : l.length + v.length ≤ 2000)
    (hline : ∀ r : RtspRequest, r.parseRequestLine l = .ok (true, r))
    (hbytes : c.readBuffer.readable ++ a.bytes ++ toCome = l ++ (13 :: 10 :: v)) (ha : Readable a c) :
    ∃ b', c.handleRead H a = .ok ([], a.server, { c with readBuffer := b' }) ∧
      b'.writerIndex ≤ c.readBuffer.writerIndex + a.bytes.length ∧
      ((b'.readable = c.readBuffer.readable ++ a.bytes ∧ Unfinished 13 b'.readable) ∨
        (c.readBuffer.readable ++ a.bytes = l ++ (13 :: 10 :: b'.readable) ∧ b'.readable ++ toCome = v)) := by
  obtain ⟨method, channel, transport, auth, hrequest⟩ := hfresh
  have hstate : c.request.state = .parseRequestLine := by rw [hrequest]
  have hp : c.readBuffer.readable ++ a.bytes <+: l ++ (13 :: 10 :: v) := ⟨toCome, hbytes⟩
  have hphead : (c.readBuffer.readable ++ a.bytes).head? ≠ some 36 := by
    rcases hq : c.readBuffer.readable ++ a.bytes with _ | ⟨b, p⟩
    · simp
    · rw [hq] at hp
      rcases l with _ | ⟨b', l⟩
      · rw [List.nil_append, List.cons_prefix_cons] at hp
        rw [hp.1]
        simp
      · rw [List.cons_append, List.cons_prefix_cons] at hp
        rw [hp.1]
        simpa using hhead
  have hplen := hp.length_le
  simp only [List.length_append, List.length_cons] at hplen
  rcases cut hl hp with ⟨hcut, -⟩ | ⟨p', hp', hprefix⟩
  · obtain ⟨b', hread, hrest, hle⟩ := ha.waits (H := H)
      (fun b hb => hb ▸ RtspRequest.parsed_unfinished hstate (hb ▸ hphead) (hb ▸ hcut)) (by rw [hstate]; simp) hphead
      (by simp only [RtspConnection.maxRtspMessageSize, List.length_append]; omega)
    exact ⟨b', hread, hle, Or.inl ⟨hrest, hrest ▸ hcut⟩⟩
  · have hrest' : p' ++ toCome = v := by
      rw [hp'] at hbytes
      simpa using hbytes
    have hp'head : p'.head? ≠ some 36 := by
      rcases p' with _ | ⟨b, p'⟩
      · simp
      · rw [← hrest', List.cons_append, List.head?_cons] at hv
        simpa using hv
    have hp'len := congrArg List.length hrest'
    rw [List.length_append] at hp'len
    obtain ⟨b', hread, hrest, hle⟩ := ha.waits (H := H)
      (fun b hb => RtspRequest.parsed_ignored hstate (hb ▸ hphead) hl (hb.trans hp') (hline c.request)) (by rw [hstate]; simp) hp'head
      (by simp only [RtspConnection.maxRtspMessageSize]; omega)
    exact ⟨b', hread, hle, Or.inr ⟨by rw [hrest]; exact hp', by rw [hrest]; exact hrest'⟩⟩

end Read

end AuthVideo
