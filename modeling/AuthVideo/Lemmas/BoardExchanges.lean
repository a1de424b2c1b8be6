import AuthVideo.Lemmas.Exchange
import Mathlib.Data.List.TakeWhile

/-!
# What the board sends

The three requests, and that the parser understands their lines.
-/

namespace AuthVideo

open Xop Lines

/-! ## Texts without zeros -/

/-- A text without a zero is a string. -/
theorem cString_eq {s : Bytes} (h : (0 : UInt8) ∉ s) : cString s = s :=
  List.takeWhile_eq_self_iff.mpr fun b hb => by
    simp only [decide_eq_true_eq]
    rintro rfl
    exact h hb

/-- A text that fits is written whole. -/
theorem snprintf_eq {size : ℕ} {s : Bytes} (h : (0 : UInt8) ∉ s) (hlen : s.length < size) : snprintf size s = s := by
  unfold snprintf
  rw [cString_eq h, List.take_of_length_le (by omega)]

/-- A digit is neither white space nor a sign. -/
theorem of_isdigit {b : UInt8} (hb : isdigit b = true) : isspace b = false ∧ b ≠ 45 ∧ b ≠ 43 := by
  simp only [isdigit, Bool.and_eq_true, decide_eq_true_eq, UInt8.le_iff_toNat_le, UInt8.reduceToNat] at hb
  refine ⟨?_, ?_, ?_⟩
  · simp only [isspace, Bool.or_eq_false_iff, decide_eq_false_iff_not, Bool.and_eq_false_iff, UInt8.le_iff_toNat_le, UInt8.reduceToNat]
    refine ⟨?_, Or.inr (by omega)⟩
    rintro rfl
    simp at hb
  · rintro rfl
    simp at hb
  · rintro rfl
    simp at hb

/-- A blank of a format goes up to the digits. -/
theorem read_blank (n : UInt32) (t : Bytes) :
    Scanf.Directive.read locale .blank (32 :: (percentU n ++ t)) = some ([], percentU n ++ t) := by
  obtain ⟨b, bs, hbs⟩ := List.exists_cons_of_ne_nil (percentU_ne_nil n)
  have hb : isdigit b = true := isdigit_of_mem_percentU (n := n) (by rw [hbs]; exact List.mem_cons_self)
  have hspace := (of_isdigit hb).1
  rw [hbs]
  simp only [Scanf.Directive.read, List.cons_append]
  rw [List.dropWhile_cons_of_pos (by rfl), List.dropWhile_cons_of_neg (by simp [locale, hspace])]

/-- A number in front of something else is read as one. -/
theorem scan_percentU (n : UInt32) {t : Bytes} (ht : ∀ b ∈ t.head?, isdigit b = false) :
    ∃ k, Scanf.scan locale [.blank, .unsigned 32] (32 :: (percentU n ++ t)) = [.number k] := by
  have hdigits : (percentU n).map locale.digit = ((percentU n).map fun b => b.toNat - 48).map some := by
    rw [List.map_map]
    exact List.map_congr_left fun b hb => by simp [locale, isdigit_of_mem_percentU hb]
  obtain ⟨d, ds, hds⟩ := List.exists_cons_of_ne_nil (List.map_eq_nil_iff.not.mpr (percentU_ne_nil n) :
    (percentU n).map (fun b => b.toNat - 48) ≠ [])
  rw [hds] at hdigits
  rw [Scanf.scan_cons (read_blank n t), List.nil_append, Scanf.scan_unsigned hdigits]
  · exact ⟨_, rfl⟩
  · intro c hc
    simp [locale, ht c hc]
  · intro c hc
    exact of_isdigit (isdigit_of_mem_percentU (List.mem_of_mem_head? hc))

/-! ## The requests -/

/-- What the request line of the url leaves. -/
def urlParam (url suffix : Bytes) (method : Method) : RequestLineParam :=
  ⟨url, cstr "10.25.9.28", 5543, suffix, cstr "RTSP/1.0", method.toText⟩

/-- The first request. -/
def describeExchange : Exchange where
  line := cstr "DESCRIBE rtsp://10.25.9.28:5543/live RTSP/1.0"
  cseq := cstr "CSeq: 1"
  deciding := cstr "Accept: application/sdp"
  tail := [[]]
  method := .describe
  param := urlParam rtspUrl (cstr "live") .describe
  number := 1
  final channel transport := ⟨.describe, channel, transport, [], some (urlParam rtspUrl (cstr "live") .describe),
    { noHeaders with cseq := some 1 }, .gotAll⟩

/-- The second request. -/
def setupExchange : Exchange where
  line := cstr "SETUP rtsp://10.25.9.28:5543/live/trackID=1 RTSP/1.0"
  cseq := cstr "CSeq: 2"
  deciding := cstr "Transport: RTP/AVP;unicast;client_port=5008-5009"
  tail := [[]]
  method := .setup
  param := urlParam (rtspUrl ++ cstr "/trackID=1") (cstr "live/trackID=1") .setup
  number := 2
  final _ _ := ⟨.setup, channel0, .rtpOverUdp, [], some (urlParam (rtspUrl ++ cstr "/trackID=1") (cstr "live/trackID=1") .setup),
    ⟨some 2, none, none, some 5008, some 5009⟩, .gotAll⟩

/-- The third request, for a session. -/
def playExchange (session : UInt32) : Exchange where
  line := cstr "PLAY rtsp://10.25.9.28:5543/live RTSP/1.0"
  cseq := cstr "CSeq: 3"
  deciding := cstr "Session: " ++ percentU session
  tail := [cstr "Range: npt=0.000-", []]
  method := .play
  param := urlParam rtspUrl (cstr "live") .play
  number := 3
  final channel transport := ⟨.play, channel, transport, [], some (urlParam rtspUrl (cstr "live") .play),
    { noHeaders with cseq := some 3 }, .gotAll⟩

/-- One line is the whole of a tail of one line. -/
theorem take_tail (m : ℕ) : ([[]] : List Bytes).take (m + 1) = [[]] := by simp

theorem understood_describe : describeExchange.Understood where
  plain := by decide
  heads := by decide
  short := by decide
  method_ne := by decide
  line_ok _ _ _ _ := rfl
  cseq_ok _ _ _ := rfl
  both_ok _ _ _ m := by
    rcases m with _ | m
    · rfl
    · rw [show (_ : Exchange).tail.take (m + 1) = [[]] from take_tail m]
      rfl
  deciding_ok _ _ m := by
    rcases m with _ | m
    · rfl
    · rw [show (_ : Exchange).tail.take (m + 1) = [[]] from take_tail m]
      rfl
  final_state _ _ := rfl
  final_method _ _ := rfl

theorem understood_setup : setupExchange.Understood where
  plain := by decide
  heads := by decide
  short := by decide
  method_ne := by decide
  line_ok _ _ _ _ := rfl
  cseq_ok _ _ _ := rfl
  both_ok _ _ _ m := by
    rcases m with _ | m
    · rfl
    · rw [show (_ : Exchange).tail.take (m + 1) = [[]] from take_tail m]
      rfl
  deciding_ok _ _ m := by
    rcases m with _ | m
    · rfl
    · rw [show (_ : Exchange).tail.take (m + 1) = [[]] from take_tail m]
      rfl
  final_state _ _ := rfl
  final_method _ _ := rfl

/-- A byte that stands nowhere around the number does not stand in the line. -/
theorem notMem_sessionLine {b : UInt8} (hdigit : isdigit b = false) {A J : Bytes} (hA : b ∉ A) (hline : b ∉ cstr "Session: ")
    (hJ : b ∉ J) (n : UInt32) : b ∉ A ++ (cstr "Session: " ++ (percentU n ++ J)) := by
  simp only [List.mem_append, not_or]
  exact ⟨hA, hline, notMem_percentU hdigit n, hJ⟩

/-- `ParseSessionId` finds the number. -/
theorem parseSessionId_line {A J : Bytes}
    (hA : ∀ i < A.length, ¬ cstr "Session" <+: A.drop i ∧ ¬ A.drop i <+: cstr "Session") (hJ : (0 : UInt8) ∉ J)
    (hdigit : ∀ b ∈ J.head?, isdigit b = false) (n : UInt32) :
    RtspRequest.parseSessionId (A ++ (cstr "Session: " ++ (percentU n ++ J))) = true := by
  have hfind : find "Session" (A ++ (cstr "Session: " ++ (percentU n ++ J))) = some A.length := by
    unfold find
    rw [Search.first_append_of_clash hA, show cstr "Session: " ++ (percentU n ++ J) =
      cstr "Session" ++ (cstr ": " ++ (percentU n ++ J)) from rfl, show cstr "Session" = 83 :: cstr "ession" from rfl,
      Search.first_self]
    simp
  have hzero : (0 : UInt8) ∉ cstr "Session: " ++ (percentU n ++ J) := by
    simpa using notMem_sessionLine (A := []) (by decide) (by simp) (by decide) hJ n
  obtain ⟨k, hk⟩ := scan_percentU n hdigit
  unfold RtspRequest.parseSessionId
  rw [hfind]
  dsimp only
  rw [List.drop_left' rfl, cString_eq hzero]
  have hskip : Scanf.Directive.read locale (.skip (· ≠ 58)) (cstr "Session: " ++ (percentU n ++ J)) =
      some ([], 58 :: 32 :: (percentU n ++ J)) := rfl
  rw [Scanf.scan_cons hskip, List.nil_append, Scanf.scan_literal, hk]

/-- There is no authorization in the line. -/
theorem parseAuthorization_none {message : Bytes} (h : (65 : UInt8) ∉ message) : RtspRequest.parseAuthorization message = .ok [] := by
  have hfind : find "Authorization" message = none :=
    Search.first_eq_none_iff.mpr (Search.not_infix_of_notMem (c := 65) h)
  unfold RtspRequest.parseAuthorization
  rw [hfind]
  rfl

/-- The tail of the third request has none of the bytes in question. -/
theorem playTail (m : ℕ) :
    let J := (([cstr "Range: npt=0.000-", []].take m).map fun l => [13, 10] ++ l).flatten
    (0 : UInt8) ∉ J ∧ (65 : UInt8) ∉ J ∧ (67 : UInt8) ∉ J ∧ ∀ b ∈ J.head?, isdigit b = false := by
  rcases m with _ | _ | m
  · simp
  · refine ⟨by decide, by decide, by decide, ?_⟩
    simp [isdigit]
  · rw [show [cstr "Range: npt=0.000-", ([] : Bytes)].take (m + 2) = [cstr "Range: npt=0.000-", []] by simp]
    refine ⟨by decide, by decide, by decide, ?_⟩
    simp [isdigit]

theorem playLine (method : Method) (channel : MediaChannelId) (transport : TransportMode) (auth : Bytes) :
    (⟨method, channel, transport, auth, none, noHeaders, .parseRequestLine⟩ : RtspRequest).parseRequestLine
        (cstr "PLAY rtsp://10.25.9.28:5543/live RTSP/1.0") =
      .ok (true, ⟨.play, channel, transport, auth, some (urlParam rtspUrl (cstr "live") .play), noHeaders, .parseHeadersLine⟩) := rfl

theorem playCseq (channel : MediaChannelId) (transport : TransportMode) (auth : Bytes) :
    (⟨.play, channel, transport, auth, some (urlParam rtspUrl (cstr "live") .play), noHeaders, .parseHeadersLine⟩ :
        RtspRequest).parseHeadersLine (cstr "CSeq: 3") =
      .ok (true, ⟨.play, channel, transport, [], some (urlParam rtspUrl (cstr "live") .play), { noHeaders with cseq := some 3 },
        .parseHeadersLine⟩) := rfl

/-- `ParseCSeq` looks at the front of the header lines only. -/
theorem parseCSeq_play (channel : MediaChannelId) (transport : TransportMode) (auth X : Bytes) :
    (⟨.play, channel, transport, auth, some (urlParam rtspUrl (cstr "live") .play), noHeaders, .parseHeadersLine⟩ :
        RtspRequest).parseCSeq (cstr "CSeq: 3\r\n" ++ X) =
      (true, ⟨.play, channel, transport, auth, some (urlParam rtspUrl (cstr "live") .play), { noHeaders with cseq := some 3 },
        .parseHeadersLine⟩) := rfl

/-- A request `PLAY` whose lines have the number of a session. -/
theorem parseHeadersLine_play {message : Bytes} {r : RtspRequest} {found : Bool} {channel : MediaChannelId} {transport : TransportMode}
    {auth : Bytes} (hcseq : r.parseCSeq message = (found, ⟨.play, channel, transport, auth, some (urlParam rtspUrl (cstr "live") .play),
      { noHeaders with cseq := some 3 }, .parseHeadersLine⟩))
    (hauth : RtspRequest.parseAuthorization message = .ok []) (hsession : RtspRequest.parseSessionId message = true) :
    r.parseHeadersLine message = .ok (true, ⟨.play, channel, transport, [], some (urlParam rtspUrl (cstr "live") .play),
      { noHeaders with cseq := some 3 }, .gotAll⟩) := by
  unfold RtspRequest.parseHeadersLine
  rw [hcseq]
  simp [RtspRequest.storeAuthorization, RtspRequest.parseMethodLine, hauth, hsession, bind, Except.bind, pure, Except.pure]

theorem understood_play (session : UInt16) : (playExchange session.toUInt32).Understood where
  plain := by
    intro l hl
    simp only [Exchange.lines, playExchange, List.mem_cons, List.not_mem_nil, or_false] at hl
    rcases hl with rfl | rfl | rfl | rfl | rfl
    · decide
    · decide
    · simpa using notMem_sessionLine (b := 13) (A := []) (J := []) (by decide) (by simp) (by decide) (by simp) session.toUInt32
    · decide
    · decide
  heads := by
    intro l hl
    simp only [Exchange.lines, playExchange, List.mem_cons, List.not_mem_nil, or_false] at hl
    rcases hl with rfl | rfl | rfl | rfl | rfl <;> simp [cstr]
  short := by
    have hlen := length_percentU_le session
    simp only [Exchange.text, Exchange.lines, playExchange, joined_cons, joined_nil, List.length_append, List.length_cons,
      List.length_nil]
    have hconst : (cstr "PLAY rtsp://10.25.9.28:5543/live RTSP/1.0").length = 41 ∧ (cstr "CSeq: 3").length = 7 ∧
        (cstr "Session: ").length = 9 ∧ (cstr "Range: npt=0.000-").length = 17 := ⟨rfl, rfl, rfl, rfl⟩
    omega
  method_ne := by simp [playExchange]
  line_ok method channel transport auth := playLine method channel transport auth
  cseq_ok channel transport auth := playCseq channel transport auth
  both_ok channel transport auth m := by
    obtain ⟨hzero, hA, -, hdigit⟩ := playTail m
    have hmessage : between 13 10 (playExchange session.toUInt32).cseq ((playExchange session.toUInt32).deciding ::
          (playExchange session.toUInt32).tail.take m) =
        cstr "CSeq: 3\r\n" ++ (cstr "Session: " ++ (percentU session.toUInt32 ++
          (([cstr "Range: npt=0.000-", []].take m).map fun l => [13, 10] ++ l).flatten)) := by
      simp [between, playExchange, cstr]
    rw [hmessage]
    exact parseHeadersLine_play (parseCSeq_play channel transport auth _)
      (parseAuthorization_none (notMem_sessionLine (by decide) (by decide) (by decide) hA session.toUInt32))
      (parseSessionId_line (by decide) hzero hdigit session.toUInt32)
  deciding_ok channel transport m := by
    obtain ⟨hzero, hA, hC, hdigit⟩ := playTail m
    have hmessage : between 13 10 (playExchange session.toUInt32).deciding ((playExchange session.toUInt32).tail.take m) =
        [] ++ (cstr "Session: " ++ (percentU session.toUInt32 ++
          (([cstr "Range: npt=0.000-", []].take m).map fun l => [13, 10] ++ l).flatten)) := by
      simp [between, playExchange]
    rw [hmessage]
    have hfind : find "CSeq" ([] ++ (cstr "Session: " ++ (percentU session.toUInt32 ++
        (([cstr "Range: npt=0.000-", []].take m).map fun l => [13, 10] ++ l).flatten))) = none :=
      Search.first_eq_none_iff.mpr (Search.not_infix_of_notMem (c := 67)
        (notMem_sessionLine (by decide) (by simp) (by decide) hC session.toUInt32))
    have hcseq : ((playExchange session.toUInt32).afterCseq channel transport).parseCSeq ([] ++ (cstr "Session: " ++
          (percentU session.toUInt32 ++ (([cstr "Range: npt=0.000-", []].take m).map fun l => [13, 10] ++ l).flatten))) =
        (false, ⟨.play, channel, transport, [], some (urlParam rtspUrl (cstr "live") .play), { noHeaders with cseq := some 3 },
          .parseHeadersLine⟩) := by
      unfold RtspRequest.parseCSeq
      rw [hfind]
      rfl
    exact parseHeadersLine_play hcseq
      (parseAuthorization_none (notMem_sessionLine (by decide) (by simp) (by decide) hA session.toUInt32))
      (parseSessionId_line (by simp) hzero hdigit session.toUInt32)
  final_state _ _ := rfl
  final_method _ _ := rfl

end AuthVideo
