import AuthVideo.Connection
import AuthVideo.Lemmas.Python

/-!
# Messages in a stream

The stream of some bodies is each of them behind its length. A message is read off the front of it exactly when no cut lies
inside its header, and what is left is the stream of the other bodies.
-/

namespace AuthVideo

open Receive

/-- A body behind its length. -/
def frame (body : Bytes) : Bytes := BigEndian.encode 4 body.length ++ body

/-- The stream of some bodies. -/
def frames (bodies : List Bytes) : Bytes := (bodies.map frame).flatten

@[simp] theorem frames_cons (body : Bytes) (bodies : List Bytes) : frames (body :: bodies) = frame body ++ frames bodies := rfl

theorem length_frame (body : Bytes) : (frame body).length = 4 + body.length := by
  rw [frame, List.length_append, BigEndian.length_encode]

/-- The position of the header of a message. -/
def headerStart (bodies : List Bytes) (i : Nat) : Nat := (frames (bodies.take i)).length

/-! ## One message -/

section Message

variable {ps : List Bytes} {body rest : Bytes}

/-- There is something to read. -/
theorem recv_ne_nil (hps : Proper ps) (hstream : ps.flatten = frame body ++ rest) : (recv 4 ps).1 ≠ [] := by
  intro h
  rw [(recv_eq_nil_iff (by decide) hps).mp h] at hstream
  have hlen := congrArg List.length hstream
  rw [List.length_append, length_frame, List.flatten_nil, List.length_nil] at hlen
  omega

/-- The header is unpacked exactly when no cut lies inside. -/
theorem unpackLength_recv (hps : Proper ps) (hbody : body.length < 2 ^ 32) (hstream : ps.flatten = frame body ++ rest) :
    unpackLength (recv 4 ps).1 = if Whole 4 0 ps then .ok body.length else .error .unpack := by
  have htotal : 4 ≤ total ps := by
    rw [total, hstream, List.length_append, length_frame]
    omega
  by_cases hw : Whole 4 0 ps
  · have hlen := (length_recv_eq_iff htotal hps).mpr hw
    have hheader : (recv 4 ps).1 = BigEndian.encode 4 body.length := by
      have happend := recv_append 4 ps
      rw [hstream, frame, List.append_assoc] at happend
      exact List.append_inj_left happend (by rw [hlen, BigEndian.length_encode])
    rw [unpackLength, if_pos hlen, if_pos hw, hheader, BigEndian.decode_encode hbody]
  · have hlen : ¬(recv 4 ps).1.length = 4 := fun h => hw ((length_recv_eq_iff htotal hps).mp h)
    rw [unpackLength, if_neg hlen, if_neg hw]

/-- The loop of calls gets the body, however it is cut. -/
theorem recvLoop_body (hps : Proper ps) (hw : Whole 4 0 ps) (hstream : ps.flatten = frame body ++ rest) :
    ∃ ps', recvLoop body.length [] (recv 4 ps).2 = some (body, ps') ∧ Rest (frame body).length ps ps' := by
  have htotal : 4 ≤ total ps := by
    rw [total, hstream, List.length_append, length_frame]
    omega
  have hlen := (length_recv_eq_iff htotal hps).mpr hw
  have hrest := rest_recv hps 4
  rw [hlen] at hrest
  have hsplit : (recv 4 ps).2.flatten = body ++ rest := by
    rw [hrest.stream, hstream, frame, List.append_assoc]
    exact List.drop_left' (BigEndian.length_encode 4 body.length)
  have hlength : ([] : Bytes).length + body.length = body.length := Nat.zero_add body.length
  obtain ⟨ps', hloop, hps'⟩ := recvLoop_eq hrest.proper hlength hsplit
  refine ⟨ps', hloop, ?_⟩
  rw [length_frame]
  exact hrest.trans hps'

/-- A message whose header is whole is received. -/
theorem recvMessage_of_whole (hps : Proper ps) (hbody : body.length < 2 ^ 32) (hstream : ps.flatten = frame body ++ rest)
    (hw : Whole 4 0 ps) :
    ∃ ps', recvMessage (recv 4 ps).1 (recv 4 ps).2 = .ok (body, ps') ∧ Rest (frame body).length ps ps' := by
  obtain ⟨ps', hloop, hps'⟩ := recvLoop_body hps hw hstream
  refine ⟨ps', ?_, hps'⟩
  simp only [recvMessage, unpackLength_recv hps hbody hstream, if_pos hw, hloop]

/-- A message whose header is cut raises. -/
theorem recvMessage_of_cut (hps : Proper ps) (hbody : body.length < 2 ^ 32) (hstream : ps.flatten = frame body ++ rest)
    (hw : ¬Whole 4 0 ps) : recvMessage (recv 4 ps).1 (recv 4 ps).2 = .error .unpack := by
  simp only [recvMessage, unpackLength_recv hps hbody hstream, if_neg hw]

end Message

/-! ## All messages -/

section Messages

variable {Γ : Ctx} {C : Center} {J : Json} {client : Nat} {draw : Nat → Nat}

/-- The messages of a connection, one after the other, without the stream they come in. -/
def Ctx.answerAll (Γ : Ctx) (C : Center) (J : Json) (client : Nat) (draw : Nat → Nat) :
    Nat → List Bytes → Server → List Served × Except ConnError Server
  | _, [], s => ([], .ok s)
  | n, body :: bodies, s =>
    match Γ.answerBody C J client (draw n) body s with
    | .error (.loads .jsonDecodeError) => ([], .ok s)
    | .error e => ([], .error e)
    | .ok (served, s') =>
      let (log, final) := Γ.answerAll C J client draw (n + 1) bodies s'
      (served :: log, final)

/-- The message comes up: those before it are answered. -/
def Ctx.ComesUp (Γ : Ctx) (C : Center) (J : Json) (client : Nat) (draw : Nat → Nat) (n : Nat) (bodies : List Bytes)
    (s : Server) (i : Nat) : Prop :=
  i < bodies.length ∧ (Γ.answerAll C J client draw n (bodies.take i) s).1.length = i

/-- Nothing that is raised over a body is the exception of a short header. -/
theorem Ctx.answerBody_ne_unpack (drawn : Nat) (body : Bytes) (s : Server) :
    Γ.answerBody C J client drawn body s ≠ .error .unpack := by
  intro h
  unfold Ctx.answerBody packMessage at h
  cases hload : J.loadsRequest body with
  | error e =>
    rw [hload] at h
    cases h
  | ok request =>
    cases hprocess : Γ.processRequest C request drawn s with
    | error e =>
      simp only [hload, Except.mapError, ok_bind, hprocess] at h
      cases h
    | ok result =>
      simp only [hload, Except.mapError, ok_bind, hprocess] at h
      split at h <;> cases h

/-- The messages by themselves never raise the exception of a short header. -/
theorem Ctx.answerAll_ne_unpack (n : Nat) (bodies : List Bytes) (s : Server) :
    (Γ.answerAll C J client draw n bodies s).2 ≠ .error .unpack := by
  induction bodies generalizing n s with
  | nil => exact nofun
  | cons body bodies ih =>
    unfold Ctx.answerAll
    split
    · exact nofun
    · rename_i e _ hbody
      intro h
      rw [Except.error.inj h] at hbody
      exact Ctx.answerBody_ne_unpack _ _ _ hbody
    · exact ih _ _

/-- The loop at the end of the stream. -/
theorem Ctx.handleClientLoop_nil (n : Nat) (s : Server) :
    Γ.handleClientLoop C J client draw n [] s = ([], .ok s) := by
  rw [Ctx.handleClientLoop]
  exact dif_pos rfl

/-- The loop on a message that is not received. -/
theorem Ctx.handleClientLoop_error {ps : List Bytes} {e : ConnError} (hne : (recv 4 ps).1 ≠ [])
    (h : recvMessage (recv 4 ps).1 (recv 4 ps).2 = .error e) (n : Nat) (s : Server) :
    Γ.handleClientLoop C J client draw n ps s = ([], .error e) := by
  rw [Ctx.handleClientLoop, dif_neg hne]
  split
  · rename_i e' he'
    rw [h] at he'
    cases he'
    rfl
  · rename_i hok
    rw [h] at hok
    cases hok

/-- The loop on a message that is received. -/
theorem Ctx.handleClientLoop_ok {ps ps' : List Bytes} {body : Bytes} (hne : (recv 4 ps).1 ≠ [])
    (h : recvMessage (recv 4 ps).1 (recv 4 ps).2 = .ok (body, ps')) (n : Nat) (s : Server) :
    Γ.handleClientLoop C J client draw n ps s =
      match Γ.answerBody C J client (draw n) body s with
      | .error (.loads .jsonDecodeError) => ([], .ok s)
      | .error e => ([], .error e)
      | .ok (served, s') =>
        (served :: (Γ.handleClientLoop C J client draw (n + 1) ps' s').1,
          (Γ.handleClientLoop C J client draw (n + 1) ps' s').2) := by
  rw [Ctx.handleClientLoop, dif_neg hne]
  split
  · rename_i he
    rw [h] at he
    cases he
  · rename_i hok
    rw [h] at hok
    cases hok
    rfl

/-- The first message comes up. -/
theorem Ctx.comesUp_zero (n : Nat) (body : Bytes) (bodies : List Bytes) (s : Server) :
    Γ.ComesUp C J client draw n (body :: bodies) s 0 := ⟨Nat.succ_pos _, rfl⟩

/-- A later message comes up when the first one is answered and it comes up among the others. -/
theorem Ctx.comesUp_succ {n i : Nat} {body : Bytes} {bodies : List Bytes} {s : Server} :
    Γ.ComesUp C J client draw n (body :: bodies) s (i + 1) ↔
      ∃ served s', Γ.answerBody C J client (draw n) body s = .ok (served, s') ∧
        Γ.ComesUp C J client draw (n + 1) bodies s' i := by
  unfold Ctx.ComesUp
  rw [List.take_succ_cons, List.length_cons, Nat.succ_lt_succ_iff]
  conv_lhs => rw [Ctx.answerAll]
  cases hbody : Γ.answerBody C J client (draw n) body s with
  | error e =>
    constructor
    · rintro ⟨-, hlen⟩
      split at hlen
      · cases hlen
      · cases hlen
      · rename_i hok
        cases hok
    · rintro ⟨served, s', hok, -⟩
      cases hok
  | ok result =>
    obtain ⟨served, s'⟩ := result
    constructor
    · rintro ⟨hlt, hlen⟩
      exact ⟨served, s', rfl, hlt, Nat.succ.inj hlen⟩
    · rintro ⟨served', s'', hok, hlt, hlen⟩
      cases hok
      exact ⟨hlt, congrArg Nat.succ hlen⟩

/-- The headers of all messages that come up are whole when the first one is, and those of the messages behind it are whole in
what is left, as far as these come up. -/
theorem Ctx.allWhole_cons_iff {body : Bytes} {bodies ps ps' : List Bytes} (hw : Whole 4 0 ps)
    (hrest : ∀ k start, Whole k ((frame body).length + start) ps ↔ Whole k start ps') (n : Nat) (s : Server) :
    (∀ i, Γ.ComesUp C J client draw n (body :: bodies) s i → Whole 4 (headerStart (body :: bodies) i) ps) ↔
      ∀ served s', Γ.answerBody C J client (draw n) body s = .ok (served, s') →
        ∀ i, Γ.ComesUp C J client draw (n + 1) bodies s' i → Whole 4 (headerStart bodies i) ps' := by
  have hshift : ∀ i, Whole 4 (headerStart (body :: bodies) (i + 1)) ps ↔ Whole 4 (headerStart bodies i) ps' := by
    intro i
    have hstart : headerStart (body :: bodies) (i + 1) = (frame body).length + headerStart bodies i := by
      rw [headerStart, List.take_succ_cons, frames_cons, List.length_append]
      rfl
    rw [hstart]
    exact hrest 4 (headerStart bodies i)
  constructor
  · intro h served s' hok i hi
    exact (hshift i).mp (h (i + 1) (Ctx.comesUp_succ.mpr ⟨served, s', hok, hi⟩))
  · intro h i hi
    cases i with
    | zero => exact hw
    | succ i =>
      obtain ⟨served, s', hok, hi'⟩ := Ctx.comesUp_succ.mp hi
      exact (hshift i).mpr (h served s' hok i hi')

/-- The loop gives what the messages give by themselves exactly when no cut lies inside the header of a message that comes
up. -/
theorem Ctx.handleClientLoop_eq_iff {bodies : List Bytes} {ps : List Bytes} (hps : Proper ps)
    (hbodies : ∀ body ∈ bodies, body.length < 2 ^ 32) (hstream : ps.flatten = frames bodies) (n : Nat) (s : Server) :
    Γ.handleClientLoop C J client draw n ps s = Γ.answerAll C J client draw n bodies s ↔
      ∀ i, Γ.ComesUp C J client draw n bodies s i → Whole 4 (headerStart bodies i) ps := by
  induction bodies generalizing ps n s with
  | nil =>
    have hnil : ps = [] := by
      cases ps with
      | nil => rfl
      | cons p ps => exact absurd (List.append_eq_nil_iff.mp hstream).1 (hps p List.mem_cons_self)
    rw [hnil, Ctx.handleClientLoop_nil]
    exact iff_of_true rfl fun i hi => absurd hi.1 (Nat.not_lt_zero i)
  | cons body bodies ih =>
    obtain ⟨hbody, hbodies⟩ := List.forall_mem_cons.mp hbodies
    rw [frames_cons] at hstream
    have hne := recv_ne_nil hps hstream
    by_cases hw : Whole 4 0 ps
    · obtain ⟨ps', hmessage, hrest⟩ := recvMessage_of_whole hps hbody hstream hw
      have hstream' : ps'.flatten = frames bodies := by rw [hrest.stream, hstream, List.drop_left]
      rw [Ctx.allWhole_cons_iff hw hrest.whole, Ctx.handleClientLoop_ok hne hmessage, Ctx.answerAll]
      cases hanswer : Γ.answerBody C J client (draw n) body s with
      | error e =>
        refine iff_of_true ?_ ?_
        · split
          · rfl
          · rfl
          · rename_i hok
            cases hok
        · intro served s' hok
          cases hok
      | ok result =>
        obtain ⟨served, s'⟩ := result
        have htail := ih hrest.proper hbodies hstream' (n + 1) s'
        change (served :: (Γ.handleClientLoop C J client draw (n + 1) ps' s').1,
          (Γ.handleClientLoop C J client draw (n + 1) ps' s').2) =
            (served :: (Γ.answerAll C J client draw (n + 1) bodies s').1,
              (Γ.answerAll C J client draw (n + 1) bodies s').2) ↔ _
        rw [Prod.mk.injEq, List.cons.injEq, eq_self, true_and, ← Prod.ext_iff, htail]
        constructor
        · rintro h _ _ hok
          cases hok
          exact h
        · intro h
          exact h served s' rfl
    · refine iff_of_false ?_ fun h => hw (h 0 (Ctx.comesUp_zero n body bodies s))
      rw [Ctx.handleClientLoop_error hne (recvMessage_of_cut hps hbody hstream hw)]
      intro h
      exact Ctx.answerAll_ne_unpack n (body :: bodies) s (congrArg Prod.snd h).symm

/-- The requests of a connection with the numbers that the centre draws for them. -/
def withDraws (draw : Nat → Nat) (n : Nat) (requests : List Request) : List (Request × Nat) :=
  (requests.zipIdx n).map fun (request, i) => (request, draw i)

/-- The messages by themselves are the requests of the connection, as long as every body is a request and every response to them
has its length in four bytes. -/
theorem Ctx.answerAll_refines {bodies : List Bytes} {requests : List Request}
    (hloads : List.Forall₂ (fun body request => J.loadsRequest body = .ok request) bodies requests)
    (n : Nat) (s : Server)
    (hdumps : ∀ entry ∈ (Γ.handleClient C client (withDraws draw n requests) s).1, (J.dumpsResponse entry.2).length < 2 ^ 32) :
    ((Γ.answerAll C J client draw n bodies s).1.map fun served => (served.message, served.response)) =
        (Γ.handleClient C client (withDraws draw n requests) s).1 ∧
      (Γ.answerAll C J client draw n bodies s).2 =
        (Γ.handleClient C client (withDraws draw n requests) s).2.mapError .handler := by
  induction hloads generalizing n s with
  | nil => exact ⟨rfl, rfl⟩
  | @cons body request bodies requests hbody _ ih =>
    have hrun : Γ.handleClient C client (withDraws draw n (request :: requests)) s =
      Machine.run (Γ.serve C) (⟨client, request, draw n⟩ ::
        (withDraws draw (n + 1) requests).map fun (request, drawn) => ⟨client, request, drawn⟩) s := rfl
    rw [hrun] at hdumps ⊢
    rw [Ctx.answerAll]
    cases hprocess : Γ.processRequest C request (draw n) s with
    | error e =>
      have hanswer : Γ.answerBody C J client (draw n) body s = .error (.handler e) := by
        simp only [Ctx.answerBody, hbody, hprocess, Except.mapError, ok_bind]
        rfl
      rw [hanswer, Machine.run_cons_error (show Γ.serve C ⟨client, request, draw n⟩ s = .error e from hprocess)]
      exact ⟨rfl, rfl⟩
    | ok result =>
      obtain ⟨response, s'⟩ := result
      rw [Machine.run_cons_ok (show Γ.serve C ⟨client, request, draw n⟩ s = .ok (response, s') from hprocess)] at hdumps ⊢
      obtain ⟨hfirst, hrest⟩ := List.forall_mem_cons.mp hdumps
      have hpack : packMessage (J.dumpsResponse response) = .ok (frame (J.dumpsResponse response)) := if_pos hfirst
      have hanswer : Γ.answerBody C J client (draw n) body s =
          .ok (⟨⟨client, request, draw n⟩, response, frame (J.dumpsResponse response)⟩, s') := by
        simp only [Ctx.answerBody, hbody, hprocess, Except.mapError, ok_bind, hpack]
        rfl
      rw [hanswer]
      obtain ⟨hlog, hfinal⟩ := ih (n + 1) s' hrest
      exact ⟨congrArg (List.cons _) hlog, hfinal⟩

/-- The device decodes the response exactly when no cut lies inside its header. -/
theorem receiveResponse_iff {ps : List Bytes} {body later : Bytes} (hps : Proper ps) (hbody : body.length < 2 ^ 32)
    (hstream : ps.flatten = frame body ++ later) :
    (∃ ps', receiveResponse J ps = some ((J.loadsResponse body).mapError .loads, ps') ∧ ps'.flatten = later) ↔
      Whole 4 0 ps := by
  by_cases hw : Whole 4 0 ps
  · obtain ⟨ps', hloop, hrest⟩ := recvLoop_body hps hw hstream
    refine iff_of_true ⟨ps', ?_, ?_⟩ hw
    · simp only [receiveResponse, unpackLength_recv hps hbody hstream, if_pos hw, hloop, Option.map_some]
    · rw [hrest.stream, hstream, List.drop_left]
  · refine iff_of_false ?_ hw
    rintro ⟨ps', hreceive, -⟩
    simp only [receiveResponse, unpackLength_recv hps hbody hstream, if_neg hw, Option.some.injEq, Prod.mk.injEq] at hreceive
    cases hload : J.loadsResponse body with
    | error e =>
      rw [hload] at hreceive
      cases hreceive.1
    | ok response =>
      rw [hload] at hreceive
      cases hreceive.1

end Messages

end AuthVideo
