import AuthVideo.Lemmas.Fragments
import AuthVideo.Lemmas.RtpHeader
import AuthVideo.Xop.H265File

/-!
# What a call of `ReadFrame` gives, and what the calls of a thread give
-/

namespace AuthVideo.Xop

/-! ## Repetition -/

/-- The first elements of a list that is repeated often enough. -/
theorem take_flatten_replicate {α : Type*} {l : List α} (hl : l ≠ []) {n a b : ℕ} (ha : n ≤ a) (hb : n ≤ b) :
    (List.replicate a l).flatten.take n = (List.replicate b l).flatten.take n := by
  have hpos := List.length_pos_iff.mpr hl
  have hlonger : ∀ a, n ≤ a → (List.replicate a l).flatten.take n = (List.replicate n l).flatten.take n := by
    intro a ha
    obtain ⟨k, rfl⟩ := Nat.exists_eq_add_of_le ha
    have hlen : n ≤ (List.replicate n l).flatten.length := by
      rw [List.length_flatten, List.map_replicate, List.sum_replicate_nat]
      exact Nat.le_mul_of_pos_right n hpos
    rw [List.replicate_add, List.flatten_append, List.take_append_of_le_length hlen]
  rw [hlonger a ha, hlonger b hb]

/-! ## The loops -/

/-- A loop that breaks does so within its bounds and where its test holds. -/
theorem scanFor_some {test : ℕ → Bool} {i stop j : ℕ} (h : scanFor test i stop = some j) : i ≤ j ∧ j < stop ∧ test j = true := by
  have hmem := List.mem_of_find?_eq_some h
  have htest := List.find?_some h
  rw [List.mem_range'_1] at hmem
  exact ⟨hmem.1, by omega, htest⟩

/-- A start code begins with a zero. -/
theorem getD_of_findsEnd {buf : Bytes} {i : ℕ} (h : findsEnd buf i = true) : buf.getD i 0 = 0 := by
  unfold findsEnd startCode at h
  dsimp only at h
  split at h
  · cases h
  · rename_i hcode
    split at hcode
    · rename_i hzero
      simpa using hzero.1
    · split at hcode
      · rename_i hzero
        simpa using hzero.1
      · cases hcode

namespace H265File

/-- The reader between two calls, `p` bytes behind the start of the file. -/
def atByte (bytes : Bytes) (p : ℕ) (count : Int32) : H265File := ⟨bytes, true, p, 500000, count, .ofNat p⟩

variable {bytes : Bytes} {p : ℕ} {count : Int32}

/-- `fseek` goes to an offset that an `int` holds. -/
theorem fseek_ofNat (f : H265File) {offset : ℕ} (h : offset < 2 ^ 31) :
    f.fseek (.ofNat offset) = { f with position := offset } := by
  have hoffset : (Int32.ofNat offset).toInt = offset := Int32.toInt_ofNat_of_lt h
  have hnot : ¬Int32.ofNat offset < 0 := by
    rw [Int32.lt_iff_toInt_lt, hoffset, Int32.toInt_zero]
    omega
  rw [fseek, if_neg hnot, Int32.toNatClampNeg, hoffset, Int.toNat_natCast]

/-- What is in the buffer, as long as the file has not ended. -/
theorem fill_atByte (hp : p < bytes.length) :
    (atByte bytes p count).fill = ((bytes.drop p).take 500000,
      { atByte bytes p count with position := p + ((bytes.drop p).take 500000).length }) := by
  have hne : (bytes.drop p).take 500000 ≠ [] := by
    rw [ne_eq, List.take_eq_nil_iff, List.drop_eq_nil_iff]
    omega
  unfold fill fread
  dsimp only [atByte]
  rw [if_neg hne]

/-- A call of `ReadFrame`: no frame, or a frame up to a start code further on, or all that is in the buffer. -/
theorem readFrame_cases (count : Int32) (hsmall : bytes.length < 2 ^ 31) (hp : p < bytes.length) :
    ((atByte bytes p count).readFrame frameBufSize).1 = none ∨
    (∃ k, 4 ≤ k ∧ k < 500000 ∧ p + k < bytes.length ∧ (bytes.drop (p + k)).head? = some 0 ∧
      (atByte bytes p count).readFrame frameBufSize = (some ((bytes.drop p).take k, false), atByte bytes (p + k) (count + 1))) ∨
    (0 < count ∧
      (atByte bytes p count).readFrame frameBufSize = (some ((bytes.drop p).take 500000, true), atByte bytes 0 0)) := by
  have hne : (bytes.drop p).take 500000 ≠ [] := by
    rw [ne_eq, List.take_eq_nil_iff, List.drop_eq_nil_iff]
    omega
  have hlen : ((bytes.drop p).take 500000).length = min 500000 (bytes.length - p) := by
    rw [List.length_take, List.length_drop]
  unfold readFrame
  have hopened : (atByte bytes p count).isOpened = true := rfl
  simp only [hopened, if_true, fill_atByte hp, hne, if_false]
  split
  · exact Or.inl rfl
  · rename_i start hstart
    split
    · rename_i i hend
      right
      left
      obtain ⟨hge, hlt, htest⟩ := scanFor_some hend
      have hzero := getD_of_findsEnd htest
      rw [hlen] at hlt
      have hsize : min i frameBufSize = i := by
        unfold frameBufSize
        omega
      refine ⟨i, by omega, by omega, by omega, ?_, ?_⟩
      · rw [List.getD_eq_getElem?_getD, List.getElem?_take_of_lt (by omega), List.getElem?_drop] at hzero
        rw [List.head?_drop]
        have hin : p + i < bytes.length := by omega
        rw [List.getElem?_eq_getElem hin] at hzero ⊢
        simpa using hzero
      · have hused : Int32.ofNat p + Int32.ofNat i = .ofNat (p + i) := (Int32.ofNat_add p i).symm
        rw [hsize, List.take_take, Nat.min_eq_left (by omega)]
        simp only [atByte, hused]
        rw [fseek_ofNat _ (by omega)]
    · split
      · rename_i hcount
        right
        right
        have hsize : min ((bytes.drop p).take 500000).length frameBufSize = ((bytes.drop p).take 500000).length := by
          rw [hlen]
          unfold frameBufSize
          omega
        refine ⟨hcount, ?_⟩
        rw [hsize, List.take_length]
        exact congrArg _ (fseek_ofNat _ (show 0 < 2 ^ 31 by decide))
      · exact Or.inl rfl

/-- The frames of a reader whose call gives one. -/
theorem frames_succ_of_some {n : ℕ} {f f' : H265File} {frame : Bytes} {last : Bool}
    (h : f.readFrame frameBufSize = (some (frame, last), f')) : frames (n + 1) f = frame :: frames n f' := by
  simp only [frames, h]

/-- The frames of a reader whose call gives none. -/
theorem frames_of_none {f : H265File} (h : (f.readFrame frameBufSize).1 = none) (n : ℕ) : frames n f = [] := by
  cases n with
  | zero => rfl
  | succ n =>
    rcases hread : f.readFrame frameBufSize with ⟨result, f'⟩
    rw [hread] at h
    obtain rfl : result = none := h
    simp only [frames, hread]

/-- The frames that a pass gives from a byte on, with what becomes of the thread behind them. -/
structure Pass (bytes : Bytes) (p : ℕ) (count : Int32) (pass : List Bytes) : Prop where
  flatten : pass.flatten <+: bytes.drop p
  zero : (bytes.drop p).head? = some 0 → ∀ frame ∈ pass, frame.head? = some 0
  long : ∀ frame ∈ pass.dropLast, 4 ≤ frame.length ∧ frame.length < 500000
  next : (∀ n, frames n (atByte bytes p count) = pass.take n) ∨
    (pass ≠ [] ∧ (∀ n, frames n (atByte bytes p count) = pass.take n ++ frames (n - pass.length) (atByte bytes 0 0)) ∧
      (bytes.length ≤ p + pass.dropLast.flatten.length + 500000 → pass.flatten = bytes.drop p))

/-- Every byte of the file begins a pass. -/
theorem exists_pass (count : Int32) (hsmall : bytes.length < 2 ^ 31) (hp : p < bytes.length) :
    ∃ pass, Pass bytes p count pass := by
  -- The frames cut the rest of the file shorter and shorter.
  induction hrest : bytes.length - p using Nat.strong_induction_on generalizing p count with
  | _ rest ih =>
    rcases readFrame_cases count hsmall hp with hnone | ⟨k, hk, hklt, hlt, hzero, hread⟩ | ⟨-, hread⟩
    · refine ⟨[], List.nil_prefix, fun _ frame h => (by cases h), fun frame h => (by cases h), Or.inl fun n => ?_⟩
      rw [frames_of_none hnone, List.take_nil]
    · obtain ⟨pass, hflatten, hpass, hlong, hnext⟩ := ih (bytes.length - (p + k)) (by omega) (count + 1) hlt rfl
      have hlen : ((bytes.drop p).take k).length = k := by
        rw [List.length_take, List.length_drop]
        omega
      have hsplit : bytes.drop p = (bytes.drop p).take k ++ bytes.drop (p + k) := by
        rw [← List.drop_drop, List.take_append_drop]
      refine ⟨(bytes.drop p).take k :: pass, ?_, ?_, ?_, ?_⟩
      · rw [List.flatten_cons]
        conv_rhs => rw [hsplit]
        rwa [List.prefix_append_right_inj]
      · intro hhead frame hmem
        rcases List.mem_cons.mp hmem with rfl | hmem
        · rwa [List.head?_take, if_neg (by omega)]
        · exact hpass hzero frame hmem
      · intro frame hmem
        cases pass with
        | nil => cases hmem
        | cons next pass =>
          rw [List.dropLast_cons_of_ne_nil (List.cons_ne_nil _ _)] at hmem
          rcases List.mem_cons.mp hmem with rfl | hmem
          · omega
          · exact hlong frame hmem
      · rcases hnext with hstop | ⟨hne, hcycle, hwhole⟩
        · refine Or.inl fun n => ?_
          cases n with
          | zero => rfl
          | succ n => rw [frames_succ_of_some hread, hstop, List.take_succ_cons]
        · refine Or.inr ⟨List.cons_ne_nil _ _, fun n => ?_, fun hwindow => ?_⟩
          · cases n with
            | zero => simp [frames]
            | succ n =>
              rw [frames_succ_of_some hread, hcycle, List.take_succ_cons, List.length_cons, Nat.add_sub_add_right, List.cons_append]
          · rw [List.dropLast_cons_of_ne_nil hne, List.flatten_cons, List.length_append, hlen] at hwindow
            rw [List.flatten_cons, hwhole (by omega)]
            exact hsplit.symm
    · refine ⟨[(bytes.drop p).take 500000], ?_, ?_, fun frame h => (by cases h), Or.inr ⟨List.cons_ne_nil _ _, fun n => ?_, ?_⟩⟩
      · simpa using List.take_prefix _ _
      · intro hhead frame hmem
        rw [List.mem_singleton] at hmem
        rwa [hmem, List.head?_take, if_neg (by omega)]
      · cases n with
        | zero => rfl
        | succ n => simpa using frames_succ_of_some (n := n) hread
      · intro hwindow
        simp only [List.dropLast_singleton, List.flatten_nil, List.length_nil] at hwindow
        rw [List.flatten_singleton, List.take_of_length_le]
        rw [List.length_drop]
        omega

/-- A thread that comes back to the start of its file sends one pass over and over. -/
theorem frames_of_cycle {pass : List Bytes} (hne : pass ≠ [])
    (hcycle : ∀ n, frames n (atByte bytes 0 0) = pass.take n ++ frames (n - pass.length) (atByte bytes 0 0)) (n : ℕ) :
    frames n (atByte bytes 0 0) = (List.replicate n pass).flatten.take n := by
  have hpos := List.length_pos_iff.mpr hne
  induction n using Nat.strong_induction_on with
  | _ n ih =>
    cases n with
    | zero => rfl
    | succ n =>
      rw [hcycle, ih (n + 1 - pass.length) (by omega), List.replicate_succ, List.flatten_cons, List.take_append]
      congr 1
      exact take_flatten_replicate hne (Nat.le_refl _) (by omega)

/-- A file without bytes has no frames. -/
theorem frames_empty (n : ℕ) : frames n (opened []) = [] := frames_of_none rfl n

end H265File

/-! ## What the forwarder sees of a frame -/

/-- A payload in which the forwarder finds no I-frame. -/
def NoIFrame (payload : Bytes) : Prop :=
  (payload.getD 0 0 >>> 1) &&& 0x3F ∉ iFrameTypes ∧
    ((payload.getD 0 0 >>> 1) &&& 0x3F = 49 → payload.getD 2 0 &&& 0x3F ∉ iFrameTypes)

/-- The type in an FU header stays when its start bit is taken away. -/
theorem and_not_start (fu2 : UInt8) : fu2 &&& 0x3F = 0 → fu2 &&& ~~~0x80 &&& 0x3F = 0 := by
  revert fu2
  exact forall_byte (by decide +kernel)

/-- The type in an FU header stays when its end bit is set. -/
theorem or_end (fu2 : UInt8) : fu2 &&& 0x3F = 0 → (fu2 ||| 0x40) &&& 0x3F = 0 := by
  revert fu2
  exact forall_byte (by decide +kernel)

/-- The fragments of a unit of type 0. -/
theorem noIFrame_fragments {timestamp : UInt32} {fu1 fu2 : UInt8} {body : Bytes} (hfu : fu2 &&& 0x3F = 0) :
    ∀ rtp ∈ fragments timestamp (fuIndicator 0) fu1 fu2 body, NoIFrame rtp.payload := by
  have hcut : ∀ fu2 : UInt8, fu2 &&& 0x3F = 0 → ∀ piece, NoIFrame ([fuIndicator 0, fu1, fu2] ++ piece) := by
    intro fu2 hfu piece
    refine ⟨?_, fun _ => ?_⟩
    · change (fuIndicator 0 >>> 1) &&& 0x3F ∉ iFrameTypes
      decide
    · change fu2 &&& 0x3F ∉ iFrameTypes
      rw [hfu]
      decide
  induction fu2, body using fragments.induct with
  | case1 fu2 body hlong ih =>
    rw [fragments, dif_pos hlong, List.forall_mem_cons]
    exact ⟨hcut fu2 hfu _, ih (and_not_start fu2 hfu)⟩
  | case2 fu2 body hshort =>
    rw [fragments, dif_neg hshort, List.forall_mem_singleton]
    exact hcut (fu2 ||| 0x40) (or_end fu2 hfu) body

/-- A frame that still has its start code looks like one of type 0. -/
theorem noIFrame_handleFrame {frame : AVFrame} (now : UInt32) (hzero : frame.nal.head? = some 0) :
    ∀ rtp ∈ handleFrame now frame, NoIFrame rtp.payload := by
  have hfirst : frame.nal.getD 0 0 = 0 := by
    rw [List.head?_eq_getElem?] at hzero
    rw [List.getD_eq_getElem?_getD, hzero]
    rfl
  unfold handleFrame
  split
  · rw [List.forall_mem_singleton]
    unfold NoIFrame
    rw [hfirst]
    exact ⟨by decide, fun h => absurd h (by decide)⟩
  · dsimp only
    rw [hfirst]
    exact noIFrame_fragments (by decide)

/-- The forwarder leaves such a packet alone. -/
theorem forwardSpan_of_noIFrame (f : Forwarder) {pkt : Packet} {ssrc : UInt32} {d : Datagram}
    (hbytes : pkt.bytes = d.bytes ssrc) (h : NoIFrame d.pkt.payload) :
    forwardSpan f.skipRemain (f.load pkt) pkt.bytes.length = none := by
  have hlen : pkt.bytes.length = 12 + d.pkt.payload.length := by
    rw [hbytes, Datagram.bytes, List.length_append]
    rfl
  have hload : ∀ i < d.pkt.payload.length, f.load pkt (12 + i) = d.pkt.payload.getD i 0 := by
    intro i hi
    unfold Forwarder.load
    rw [write_apply _ (by omega)]
    simp only [hbytes, Datagram.bytes]
    rw [List.getElem_append_right (by simp [setRtpHeader])]
    simp [setRtpHeader, hi]
  have hversion : f.load pkt 0 = 0x80 := by
    unfold Forwarder.load
    rw [write_apply _ (by omega)]
    simp only [hbytes, Datagram.bytes]
    rfl
  have hheader : rtpHeaderLen (f.load pkt) pkt.bytes.length = some 12 := by
    unfold rtpHeaderLen
    rw [if_neg (by omega), hversion]
    rfl
  unfold forwardSpan
  simp only [hheader]
  split
  · rfl
  · rename_i hlong
    have htype := hload 0 (by omega)
    have hfu := hload 2 (by omega)
    rw [Nat.add_zero] at htype
    rw [htype, hfu]
    split
    · rw [if_neg fun hboth => h.1 hboth.1]
    · rename_i hfragment
      rw [if_neg fun hboth => h.2 (by simpa using hfragment) hboth.1]

end AuthVideo.Xop
