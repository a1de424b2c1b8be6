import AuthVideo.Lemmas.Connection
import AuthVideo.Lemmas.HonestRun

/-!
# Theorems 9 and 10: messages in a stream that is cut anywhere

The body of a message is read by a loop, its header by one call. A connection gives what its messages give by themselves
exactly when the stream is not cut inside the header of a message that comes up.
-/

namespace AuthVideo

open Receive

section Framing

variable {Γ : Ctx} {C : Center} {J : Json} {client : Nat} {draw : Nat → Nat}

/-- A stream that comes in as a whole gives the messages by themselves. -/
theorem Ctx.handleClientLoop_unsplit {bodies : List Bytes} (hbodies : ∀ body ∈ bodies, body.length < 2 ^ 32) (n : Nat)
    (s : Server) :
    Γ.handleClientLoop C J client draw n [frames bodies] s = Γ.answerAll C J client draw n bodies s := by
  cases bodies with
  | nil =>
    rw [Ctx.handleClientLoop]
    exact dif_pos rfl
  | cons body bodies =>
    have hne : frames (body :: bodies) ≠ [] := by
      intro h
      have hlen := congrArg List.length h
      rw [frames_cons, List.length_append, length_frame, List.length_nil] at hlen
      omega
    have hstream : [frames (body :: bodies)].flatten = frames (body :: bodies) := by
      rw [List.flatten_cons, List.flatten_nil, List.append_nil]
    refine (Ctx.handleClientLoop_eq_iff (fun p hp => by rwa [List.mem_singleton.mp hp]) hbodies hstream n s).mpr ?_
    intro i hi c hc
    obtain rfl : c = (frames (body :: bodies)).length := by simpa [cuts] using hc
    right
    -- the header of the message and the messages before it are in the stream
    have hsplit : frames (body :: bodies) =
        frames ((body :: bodies).take i) ++ frames ((body :: bodies).drop i) := by
      rw [frames, frames, frames, ← List.flatten_append, ← List.map_append, List.take_append_drop]
    obtain ⟨next, others, hnext⟩ : ∃ next others, (body :: bodies).drop i = next :: others :=
      List.exists_cons_of_length_pos (by rw [List.length_drop]; have := hi.1; omega)
    rw [hsplit, hnext, frames_cons, List.length_append, List.length_append, length_frame]
    unfold headerStart
    omega

/-- Theorem 9 (framing). Let the messages of a connection come in as any non-empty pieces. The loop of the centre gives what the
messages give by themselves, one after the other, exactly when no cut lies strictly inside the header of a message that comes
up; a stream in one piece gives it. And the device decodes the one response exactly when no cut lies inside its header. -/
theorem framing_iff {bodies ps : List Bytes} (hps : Proper ps) (hbodies : ∀ body ∈ bodies, body.length < 2 ^ 32)
    (hstream : ps.flatten = frames bodies) (n : Nat) (s : Server) :
    (Γ.handleClientLoop C J client draw n ps s = Γ.answerAll C J client draw n bodies s ↔
      ∀ i, Γ.ComesUp C J client draw n bodies s i → Whole 4 (headerStart bodies i) ps) ∧
    Γ.handleClientLoop C J client draw n [frames bodies] s = Γ.answerAll C J client draw n bodies s ∧
    ∀ (rs : List Bytes) (body later : Bytes), Proper rs → body.length < 2 ^ 32 → rs.flatten = frame body ++ later →
      ((∃ rs', receiveResponse J rs = some ((J.loadsResponse body).mapError .loads, rs') ∧ rs'.flatten = later) ↔
        Whole 4 0 rs) := by
  refine ⟨Ctx.handleClientLoop_eq_iff hps hbodies hstream n s, Ctx.handleClientLoop_unsplit hbodies n s, ?_⟩
  intro rs body later hrs hbody hresponse
  exact receiveResponse_iff hrs hbody hresponse

/-- Theorem 10 (requests in a stream). Let the bodies that come in be requests, and let each response have its length in four bytes.
Where no cut lies strictly inside the header of a message that comes up, the loop over the bytes serves the connection as the loop
over its requests does: the same requests with the same answers, and the same end, be it a state or an exception of a handler. -/
theorem connection_refines {bodies ps : List Bytes} {requests : List Request} (hps : Proper ps)
    (hbodies : ∀ body ∈ bodies, body.length < 2 ^ 32) (hstream : ps.flatten = frames bodies)
    (hloads : List.Forall₂ (fun body request => J.loadsRequest body = .ok request) bodies requests)
    (n : Nat) (s : Server)
    (hdumps : ∀ entry ∈ (Γ.handleClient C client (withDraws draw n requests) s).1, (J.dumpsResponse entry.2).length < 2 ^ 32)
    (hwhole : ∀ i, Γ.ComesUp C J client draw n bodies s i → Whole 4 (headerStart bodies i) ps) :
    ((Γ.handleClientLoop C J client draw n ps s).1.map fun served => (served.message, served.response)) =
        (Γ.handleClient C client (withDraws draw n requests) s).1 ∧
      (Γ.handleClientLoop C J client draw n ps s).2 =
        (Γ.handleClient C client (withDraws draw n requests) s).2.mapError .handler := by
  rw [(Ctx.handleClientLoop_eq_iff hps hbodies hstream n s).mpr hwhole]
  exact Ctx.answerAll_refines hloads n s hdumps

end Framing

/-- The text of a body. -/
def bodyText (text : String) : Bytes := text.toList.map fun c => UInt8.ofNat c.toNat

/-- The body of the answer to a request without an action. -/
def unknownBody : Bytes :=
  bodyText "\x7b\"status\": 400, \"message\": \"\\u672a\\u77e5\\u64cd\\u4f5c\\u7c7b\\u578b\"\x7d"

/-- `json` on the empty request and its answer; no other body is looked at. -/
def sampleJson : Json where
  loadsRequest body := if body = [123, 125] then .ok ⟨none, []⟩ else .error .other
  loadsResponse body := if body = unknownBody then .ok ⟨400, none, "未知操作类型", none⟩ else .error .other
  dumpsResponse _ := unknownBody

/-- A request without an action, cut inside its body. -/
theorem framing_iff_sample :
    sampleCtx.handleClientLoop sampleCenter sampleJson 0 (fun _ => 5) 0 [[0, 0, 0, 2, 123], [125]] (Server.start none) =
      sampleCtx.answerAll sampleCenter sampleJson 0 (fun _ => 5) 0 [[123, 125]] (Server.start none) := by
  have hps : Proper [([0, 0, 0, 2, 123] : Bytes), [125]] := by simp [Proper]
  have hbodies : ∀ body ∈ ([[123, 125]] : List Bytes), body.length < 2 ^ 32 := by simp
  refine (framing_iff hps hbodies (by decide) 0 (Server.start none)).1.mpr ?_
  intro i hi
  obtain rfl : i = 0 := Nat.lt_one_iff.mp hi.1
  decide

/-- The same request. -/
theorem connection_refines_sample :
    ((sampleCtx.handleClientLoop sampleCenter sampleJson 0 (fun _ => 5) 0 [[0, 0, 0, 2, 123], [125]] (Server.start none)).1.map
        fun served => (served.message, served.response)) =
        (sampleCtx.handleClient sampleCenter 0 (withDraws (fun _ => 5) 0 [⟨none, []⟩]) (Server.start none)).1 ∧
      (sampleCtx.handleClientLoop sampleCenter sampleJson 0 (fun _ => 5) 0 [[0, 0, 0, 2, 123], [125]] (Server.start none)).2 =
        (sampleCtx.handleClient sampleCenter 0 (withDraws (fun _ => 5) 0 [⟨none, []⟩]) (Server.start none)).2.mapError .handler := by
  have hps : Proper [([0, 0, 0, 2, 123] : Bytes), [125]] := by simp [Proper]
  have hbodies : ∀ body ∈ ([[123, 125]] : List Bytes), body.length < 2 ^ 32 := by simp
  have hloads : List.Forall₂ (fun body request => sampleJson.loadsRequest body = .ok request) [[123, 125]] [⟨none, []⟩] :=
    .cons rfl .nil
  have hlen : unknownBody.length < 2 ^ 32 := by decide
  refine connection_refines hps hbodies (by decide) hloads 0 (Server.start none) (fun _ _ => hlen) ?_
  intro i hi
  obtain rfl : i = 0 := Nat.lt_one_iff.mp hi.1
  decide

/-- What the messages give by themselves: the one request is answered. -/
theorem Ctx.answerAll_unknown (Γ : Ctx) (C : Center) (s : Server) :
    Γ.answerAll C sampleJson 0 (fun _ => 5) 0 [[123, 125]] s =
      ([⟨⟨0, ⟨none, []⟩, 5⟩, ⟨400, none, "未知操作类型", none⟩, frame unknownBody⟩], .ok s) := by
  have hpack : packMessage unknownBody = .ok (frame unknownBody) := if_pos (by decide)
  have hload : sampleJson.loadsRequest [123, 125] = .ok ⟨none, []⟩ := rfl
  have hprocess : Γ.processRequest C ⟨none, []⟩ 5 s = .ok (⟨400, none, "未知操作类型", none⟩, s) := rfl
  have hdumps : ∀ response, sampleJson.dumpsResponse response = unknownBody := fun _ => rfl
  simp only [Ctx.answerAll, Ctx.answerBody, hload, hprocess, hdumps, Except.mapError, ok_bind, hpack, pure_eq_ok]

/-- The same request and its answer, cut inside their headers: the centre and the device raise. -/
theorem split_header_raises :
    (∃ ps : List Bytes, Proper ps ∧ ps.flatten = frames [[123, 125]] ∧
      sampleCtx.handleClientLoop sampleCenter sampleJson 0 (fun _ => 5) 0 ps (Server.start none) = ([], .error .unpack) ∧
      sampleCtx.answerAll sampleCenter sampleJson 0 (fun _ => 5) 0 [[123, 125]] (Server.start none) =
        ([⟨⟨0, ⟨none, []⟩, 5⟩, ⟨400, none, "未知操作类型", none⟩, frame unknownBody⟩], .ok (Server.start none))) ∧
    (∃ rs : List Bytes, Proper rs ∧ rs.flatten = frame unknownBody ∧
      sampleJson.loadsResponse unknownBody = .ok ⟨400, none, "未知操作类型", none⟩ ∧
      ∃ rs', receiveResponse sampleJson rs = some (.error .unpack, rs')) := by
  constructor
  · refine ⟨[[0, 0], [0, 2, 123, 125]], by simp [Proper], by decide, ?_, Ctx.answerAll_unknown _ _ _⟩
    exact Ctx.handleClientLoop_error (by decide) rfl 0 _
  · refine ⟨[(frame unknownBody).take 2, (frame unknownBody).drop 2], ?_, ?_, rfl, _, rfl⟩
    · intro r hr
      have hlen := length_frame unknownBody
      rcases List.mem_cons.mp hr with rfl | hr
      · rw [← List.length_pos_iff, List.length_take]
        omega
      · rw [List.mem_singleton.mp hr, ← List.length_pos_iff, List.length_drop]
        omega
    · rw [List.flatten_cons, List.flatten_cons, List.flatten_nil, List.append_nil, List.take_append_drop]

end AuthVideo
