import AuthVideo.Lemmas.Fragments

/-!
# Theorem 30: what the client puts together when packets are lost

`parse_rtp` reads the sequence number of a packet, and nothing checks it. `fu_process` appends what comes between a start and an
end, so a unit that lost a fragment between these comes out short. A run that has, for each frame, all fragments or no start or no end,
puts out units that were sent and nothing else.
-/

namespace AuthVideo

/-! ## Receptions -/

/-- A datagram that arrives, with the answers of the allocator at its turn. -/
structure Reception where
  datagram : Datagram
  heap : Heap
  deriving DecidableEq

/-- The packet in the datagram. -/
abbrev Reception.pkt (a : Reception) : RtpPacket := a.datagram.pkt

/-- The turn of the client for the bytes of the datagram. -/
def Reception.turn (ssrc : UInt32) (a : Reception) (pool : FuPool) : Except FuFault (Written × FuPool) :=
  clientTurn a.heap (a.datagram.bytes ssrc) pool

/-- A unit that is longer than a packet arrives whole, with memory for its header and for all fragments before the last. -/
structure Complete (frame : AVFrame) (now : UInt32) (arrivals : List Reception) : Prop where
  long : MAX_RTP_PAYLOAD_SIZE < frame.nal.length
  all : arrivals.map Reception.pkt = handleFrame now frame
  header : ∀ a ∈ arrivals, Starts a.pkt.payload → a.heap.header = true
  body : ∀ a ∈ arrivals, ¬Ends a.pkt.payload → a.heap.body = true

/-- The arrivals of a timestamp. -/
def bearing (timestamp : UInt32) (arrivals : List Reception) : List Reception :=
  arrivals.filter fun a => a.pkt.timestamp = timestamp

/-- A start of a frame, and an end with memory for what is put out, arrive only with all of it. -/
def Unbroken (frame : AVFrame) (now : UInt32) (arrivals : List Reception) : Prop :=
  let own := bearing (frame.stamp now) arrivals
  (∃ a ∈ own, Starts a.pkt.payload) → (∃ a ∈ own, Ends a.pkt.payload ∧ a.heap.result = true) → Complete frame now own

/-- All that is put together in a run has a property. -/
def PutsOutOnly (ssrc : UInt32) (P : Bytes → Prop) (arrivals : List Reception) (pool : FuPool) : Prop :=
  ∀ entry ∈ (Machine.run (Reception.turn ssrc) arrivals pool).1, ∀ nalu, entry.2.assembled = some nalu → P nalu

/-! ## Turns -/

section Turns

variable {ssrc : UInt32} {a : Reception} {written : Written} {pool pool' : FuPool}

/-- A turn of the client calls `fu_process` with the payload and the timestamp of the packet. -/
theorem turn_ok (h : a.turn ssrc pool = .ok (written, pool')) :
    fuProcess a.heap a.pkt.payload a.pkt.timestamp pool = .ok (written.assembled, pool') := by
  rw [Reception.turn, clientTurn, parseRtp_bytes] at h
  simp only at h
  split at h
  · rename_i hempty
    cases h
    refine fuProcess_of_not_fragment ?_
    intro hfragment
    have hlen : 3 ≤ a.datagram.pkt.payload.length := hfragment.1
    omega
  · split at h
    · rw [bind_eq_ok] at h
      obtain ⟨⟨nalu, pool''⟩, hprocess, h⟩ := h
      cases h
      exact hprocess
    · rename_i htype
      cases h
      rw [← payloadType_eq] at htype
      exact fuProcess_of_not_fragment fun hfragment => htype hfragment.2

/-- A turn that puts a unit out is for an end, and has memory for it. -/
theorem turn_ends {out : Bytes} (h : a.turn ssrc pool = .ok (written, pool')) (hout : written.assembled = some out) :
    Ends a.pkt.payload ∧ a.heap.result = true := by
  rcases fuProcess_cases (turn_ok h) with ⟨hnone, -⟩ | ⟨i, buf, -, -, hend⟩
  · rw [hout] at hnone
    cases hnone
  · obtain ⟨hlen, htype, hbit, hresult⟩ := hend (by rw [hout]; exact Option.some_ne_none out)
    exact ⟨⟨⟨hlen, htype⟩, hbit⟩, hresult⟩

/-- A turn leaves other timestamps without a buffer as they are. -/
theorem turn_keeps_absent {timestamp : UInt32} (h : a.turn ssrc pool = .ok (written, pool')) (hother : a.pkt.timestamp ≠ timestamp)
    (habsent : pool.find timestamp = none) : pool'.find timestamp = none := by
  rw [FuPool.find_eq_none_iff] at habsent ⊢
  rcases fuProcess_cases (turn_ok h) with ⟨-, rfl⟩ | ⟨i, buf, rfl, htime, -⟩
  · exact habsent
  · intro j hactive
    by_cases hj : j = i
    · subst hj
      rw [FuPool.set_self] at hactive ⊢
      rw [htime hactive]
      exact hother
    · rw [FuPool.set_of_ne pool hj] at hactive ⊢
      exact habsent j hactive

/-- Without a start, a turn for a timestamp without a buffer does nothing. -/
theorem turn_idle (h : a.turn ssrc pool = .ok (written, pool')) (habsent : pool.find a.pkt.timestamp = none)
    (hstart : ¬Starts a.pkt.payload) : written.assembled = none ∧ pool' = pool := by
  have hprocess := turn_ok h
  have hidle : fuProcess a.heap a.pkt.payload a.pkt.timestamp pool = .ok (none, pool) := by
    by_cases hfragment : IsFragment a.pkt.payload
    · exact fuProcess_ignored habsent (not_not.mp fun hbit => hstart ⟨hfragment, hbit⟩)
    · exact fuProcess_of_not_fragment hfragment
  rw [hidle] at hprocess
  obtain ⟨hout, hpool⟩ := Prod.mk.inj (Except.ok.inj hprocess)
  exact ⟨hout.symm, hpool.symm⟩

end Turns

/-! ## Runs -/

section Runs

variable {ssrc : UInt32} {P : Bytes → Prop} {a : Reception} {arrivals : List Reception} {pool pool₁ : FuPool} {timestamp : UInt32}
  {i : Fin MAX_FU_BUFFERS} {buf : FuBuffer} {b0 b1 fu2 : UInt8} {piece : Bytes} {pieces : List Bytes}

theorem putsOutOnly_nil : PutsOutOnly ssrc P [] pool := by
  intro entry hentry
  cases hentry

/-- The first turn, and the others from the pool that it leaves. -/
theorem putsOutOnly_cons (h : ∀ written pool', a.turn ssrc pool = .ok (written, pool') →
    (∀ nalu, written.assembled = some nalu → P nalu) ∧ PutsOutOnly ssrc P arrivals pool') :
    PutsOutOnly ssrc P (a :: arrivals) pool := by
  cases hturn : a.turn ssrc pool with
  | error fault =>
    rw [PutsOutOnly, Machine.run_cons_error hturn]
    intro entry hentry
    cases hentry
  | ok result =>
    obtain ⟨written, pool'⟩ := result
    rw [PutsOutOnly, Machine.run_cons_ok hturn, List.forall_mem_cons]
    exact h written pool' hturn

/-- Without an end that has memory, nothing is put out. -/
theorem putsOutOnly_of_no_end (hend : ∀ a ∈ arrivals, ¬(Ends a.pkt.payload ∧ a.heap.result = true)) :
    PutsOutOnly ssrc P arrivals pool := by
  induction arrivals generalizing pool with
  | nil => exact putsOutOnly_nil
  | cons a arrivals ih =>
    rw [List.forall_mem_cons] at hend
    refine putsOutOnly_cons ?_
    intro written pool' hturn
    constructor
    · intro nalu hout
      exact absurd (turn_ends hturn hout) hend.1
    · exact ih hend.2

/-- Without a start, nothing is put out for a timestamp that has no buffer. -/
theorem putsOutOnly_of_no_start (hown : ∀ a ∈ arrivals, a.pkt.timestamp = timestamp) (habsent : pool.find timestamp = none)
    (hstart : ∀ a ∈ arrivals, ¬Starts a.pkt.payload) : PutsOutOnly ssrc P arrivals pool := by
  induction arrivals with
  | nil => exact putsOutOnly_nil
  | cons a arrivals ih =>
    rw [List.forall_mem_cons] at hown hstart
    refine putsOutOnly_cons ?_
    intro written pool' hturn
    obtain ⟨hout, rfl⟩ := turn_idle hturn (hown.1 ▸ habsent) hstart.1
    constructor
    · intro nalu hsome
      rw [hout] at hsome
      cases hsome
    · exact ih hown.2 hstart.2

/-- A last fragment puts out what the buffer held and its own bytes, or nothing. -/
theorem putsOutOnly_end
    (hrun : fuProcess a.heap a.pkt.payload a.pkt.timestamp pool = fuAppend a.heap true i buf piece pool₁)
    (hP : P (buf.data ++ piece)) : PutsOutOnly ssrc P [a] pool := by
  refine putsOutOnly_cons ?_
  intro written pool' hturn
  have happend := turn_ok hturn
  rw [hrun] at happend
  refine ⟨?_, putsOutOnly_nil⟩
  intro nalu hout
  rcases fuAppend_cases happend with ⟨-, hnone, -⟩ | ⟨hfalse, -⟩ | ⟨-, hsome, -⟩
  · rw [hout] at hnone
    cases hnone
  · cases hfalse
  · rw [hout] at hsome
    split at hsome
    · cases hsome
      exact hP
    · cases hsome

/-- A fragment before the last leaves its bytes behind those of the buffer. -/
theorem putsOutOnly_next
    (hrun : fuProcess a.heap a.pkt.payload a.pkt.timestamp pool = fuAppend a.heap false i buf piece pool₁)
    (hbody : a.heap.body = true) (hsettles : Settles pool₁ timestamp i) (hactive : buf.active = true)
    (htime : buf.timestamp = timestamp)
    (hnext : ∀ pool' : FuPool, pool'.find timestamp = some i → (pool' i).data = buf.data ++ piece →
      PutsOutOnly ssrc P arrivals pool') :
    PutsOutOnly ssrc P (a :: arrivals) pool := by
  refine putsOutOnly_cons ?_
  intro written pool' hturn
  have happend := turn_ok hturn
  rw [hrun] at happend
  rcases fuAppend_cases happend with ⟨hfalse, -⟩ | ⟨-, hnone, r, hr, hrtime, hdata, rfl⟩ | ⟨hfalse, -⟩
  · rw [hbody] at hfalse
    cases hfalse
  · constructor
    · intro nalu hout
      rw [hout] at hnone
      cases hnone
    · refine hnext _ (hsettles r (hr.trans hactive) (hrtime.trans htime)) ?_
      rw [FuPool.set_self]
      exact hdata
  · cases hfalse

/-- The fragments behind the first, all of them, by induction on their number. -/
theorem putsOutOnly_rest (hpayloads : arrivals.map (fun a => a.pkt.payload) = fuPayloads b0 b1 fu2 piece pieces)
    (hown : ∀ a ∈ arrivals, a.pkt.timestamp = timestamp) (hbody : ∀ a ∈ arrivals, ¬Ends a.pkt.payload → a.heap.body = true)
    (hnot : fu2 &&& 0x80 = 0) (hend : fu2 &&& 0x40 = 0) (hfind : pool.find timestamp = some i)
    (hP : P ((pool i).data ++ (piece :: pieces).flatten)) : PutsOutOnly ssrc P arrivals pool := by
  induction pieces generalizing pool arrivals piece fu2 with
  | nil =>
    obtain ⟨a, rest, rfl, hpayload, hrest⟩ := List.map_eq_cons_iff.mp hpayloads
    obtain rfl := List.map_eq_nil_iff.mp hrest
    obtain ⟨-, -, hended, hstart, -⟩ := fu2_bits fu2
    have hrun : fuProcess a.heap a.pkt.payload a.pkt.timestamp pool = fuAppend a.heap true i (pool i) piece pool := by
      rw [hpayload, hown a List.mem_cons_self, fuProcess_next hfind (hstart.trans hnot), decide_eq_true hended]
    rw [List.flatten_singleton] at hP
    exact putsOutOnly_end hrun hP
  | cons next pieces ih =>
    obtain ⟨a, rest, rfl, hpayload, hrest⟩ := List.map_eq_cons_iff.mp hpayloads
    rw [List.forall_mem_cons] at hown hbody
    obtain ⟨hcleared, hkept, -⟩ := fu2_bits fu2
    have hrun : fuProcess a.heap a.pkt.payload a.pkt.timestamp pool = fuAppend a.heap false i (pool i) piece pool := by
      rw [hpayload, hown.1, fuProcess_next hfind hnot, decide_eq_false (not_not.mpr hend)]
    have hnotEnd : ¬Ends a.pkt.payload := by
      rw [hpayload, ends_fragment]
      exact not_not.mpr hend
    obtain ⟨hactive, htime⟩ := FuPool.of_find hfind
    refine putsOutOnly_next hrun (hbody.1 hnotEnd) (settles_of_find hfind) hactive htime ?_
    intro pool' hfind' hdata
    refine ih hrest hown.2 hbody.2 hcleared (hkept.trans hend) hfind' ?_
    rw [hdata, List.append_assoc, ← List.flatten_cons]
    exact hP

/-- All fragments of a unit, from any pool. -/
theorem putsOutOnly_whole
    (hpayloads : arrivals.map (fun a => a.pkt.payload) = fuPayloads b0 b1 (fuStart b0) piece pieces)
    (hown : ∀ a ∈ arrivals, a.pkt.timestamp = timestamp) (hheader : ∀ a ∈ arrivals, Starts a.pkt.payload → a.heap.header = true)
    (hbody : ∀ a ∈ arrivals, ¬Ends a.pkt.payload → a.heap.body = true)
    (hP : P ([0, 0, 0, 1] ++ b0 :: b1 :: (piece :: pieces).flatten)) : PutsOutOnly ssrc P arrivals pool := by
  have hunit : [0, 0, 0, 1] ++ b0 :: b1 :: (piece :: pieces).flatten = [0, 0, 0, 1, b0, b1] ++ (piece ++ pieces.flatten) := rfl
  rw [hunit] at hP
  obtain ⟨hstart, hend, htype⟩ := fuStart_bits b0
  obtain ⟨hcleared, hkept, hended, hstart', htype'⟩ := fu2_bits (fuStart b0)
  cases pieces with
  | nil =>
    obtain ⟨a, rest, rfl, hpayload, hrest⟩ := List.map_eq_cons_iff.mp hpayloads
    obtain rfl := List.map_eq_nil_iff.mp hrest
    have hbit : (fuStart b0 ||| 0x40) &&& 0x80 ≠ 0 := hstart'.symm ▸ hstart
    have hgranted := hheader a List.mem_cons_self (hpayload ▸ starts_fragment.mpr hbit)
    obtain ⟨i, buf, pool₁, hrun, -, -, -, hdata⟩ :=
      fuProcess_start b1 piece timestamp pool hgranted hbit (htype'.trans htype)
    rw [decide_eq_true hended, ← hpayload, ← hown a List.mem_cons_self] at hrun
    rw [← hdata, List.flatten_nil, List.append_nil] at hP
    exact putsOutOnly_end hrun hP
  | cons next pieces =>
    obtain ⟨a, rest, rfl, hpayload, hrest⟩ := List.map_eq_cons_iff.mp hpayloads
    rw [List.forall_mem_cons] at hown hheader hbody
    have hgranted := hheader.1 (hpayload ▸ starts_fragment.mpr hstart)
    have hnotEnd : ¬Ends a.pkt.payload := by
      rw [hpayload, ends_fragment]
      exact not_not.mpr hend
    obtain ⟨i, buf, pool₁, hrun, hsettles, hactive, htime, hdata⟩ :=
      fuProcess_start b1 piece timestamp pool hgranted hstart htype
    rw [decide_eq_false (not_not.mpr hend), ← hpayload] at hrun
    have hcall : fuProcess a.heap a.pkt.payload a.pkt.timestamp pool = fuAppend a.heap false i buf piece pool₁ := by
      rw [hown.1]
      exact hrun
    refine putsOutOnly_next hcall (hbody.1 hnotEnd) hsettles hactive htime ?_
    intro pool' hfind' hdata'
    refine putsOutOnly_rest hrest hown.2 hbody.2 hcleared (hkept.trans hend) hfind' ?_
    rw [hdata', hdata, List.append_assoc]
    exact hP

/-- The arrivals of one frame, at a pool without a buffer for it. -/
theorem putsOutOnly_frame {frame : AVFrame} {now : UInt32} (hown : ∀ a ∈ arrivals, a.pkt.timestamp = frame.stamp now)
    (habsent : pool.find (frame.stamp now) = none)
    (hunbroken : (∃ a ∈ arrivals, Starts a.pkt.payload) →
      (∃ a ∈ arrivals, Ends a.pkt.payload ∧ a.heap.result = true) → Complete frame now arrivals) :
    PutsOutOnly ssrc (· = [0, 0, 0, 1] ++ frame.nal) arrivals pool := by
  by_cases hstart : ∃ a ∈ arrivals, Starts a.pkt.payload
  · by_cases hend : ∃ a ∈ arrivals, Ends a.pkt.payload ∧ a.heap.result = true
    · obtain ⟨hlong, hall, hheader, hbody⟩ := hunbroken hstart hend
      obtain ⟨b0, b1, piece, pieces, hnal, hpayloads⟩ := handleFrame_fragments now hlong
      rw [← hall, List.map_map] at hpayloads
      rw [hnal]
      exact putsOutOnly_whole hpayloads hown hheader hbody rfl
    · refine putsOutOnly_of_no_end ?_
      intro a ha hends
      exact hend ⟨a, ha, hends⟩
  · push Not at hstart
    exact putsOutOnly_of_no_start hown habsent hstart

/-- Two parts of a run. -/
theorem putsOutOnly_append {first second : List Reception} (hfirst : PutsOutOnly ssrc P first pool)
    (hsecond : ∀ pool', (Machine.run (Reception.turn ssrc) first pool).2 = .ok pool' → PutsOutOnly ssrc P second pool') :
    PutsOutOnly ssrc P (first ++ second) pool := by
  rw [PutsOutOnly, Machine.run_append]
  rcases hrun : Machine.run (Reception.turn ssrc) first pool with ⟨log, fault | pool'⟩
  · intro entry hentry
    exact hfirst entry (by rw [hrun]; exact hentry)
  · intro entry hentry
    rcases List.mem_append.mp hentry with hmem | hmem
    · exact hfirst entry (by rw [hrun]; exact hmem)
    · exact hsecond pool' (by rw [hrun]) entry hmem

theorem PutsOutOnly.mono {Q : Bytes → Prop} (h : PutsOutOnly ssrc P arrivals pool) (hPQ : ∀ nalu, P nalu → Q nalu) :
    PutsOutOnly ssrc Q arrivals pool := by
  intro entry hentry nalu hout
  exact hPQ nalu (h entry hentry nalu hout)

/-- The arrivals of a timestamp behind and in front of others. -/
theorem bearing_append {first second : List Reception} (hfirst : ∀ a ∈ first, a.pkt.timestamp = timestamp)
    (hsecond : ∀ a ∈ second, a.pkt.timestamp ≠ timestamp) : bearing timestamp (first ++ second) = first := by
  have hall : bearing timestamp first = first := List.filter_eq_self.mpr fun a ha => decide_eq_true (hfirst a ha)
  have hnone : bearing timestamp second = [] := List.filter_eq_nil_iff.mpr fun a ha => by simpa using hsecond a ha
  rw [bearing, List.filter_append]
  exact (congrArg₂ (· ++ ·) hall hnone).trans (List.append_nil _)

theorem bearing_append_of_ne {first second : List Reception} (hfirst : ∀ a ∈ first, a.pkt.timestamp ≠ timestamp) :
    bearing timestamp (first ++ second) = bearing timestamp second := by
  have hnone : bearing timestamp first = [] := List.filter_eq_nil_iff.mpr fun a ha => by simpa using hfirst a ha
  rw [bearing, List.filter_append]
  exact congrArg (· ++ bearing timestamp second) hnone

/-- The arrivals of frames one after the other, by induction on the frames: none of those to come has a buffer. -/
theorem putsOutOnly_frames {frames : List (AVFrame × UInt32)}
    (hdistinct : (frames.map fun (frame, now) => frame.stamp now).Nodup)
    (hlost : (arrivals.map Reception.pkt).Sublist (frames.flatMap fun (frame, now) => handleFrame now frame))
    (hunbroken : ∀ f ∈ frames, Unbroken f.1 f.2 arrivals) (habsent : ∀ f ∈ frames, pool.find (f.1.stamp f.2) = none) :
    PutsOutOnly ssrc (fun nalu => ∃ f ∈ frames, nalu = [0, 0, 0, 1] ++ f.1.nal) arrivals pool := by
  induction frames generalizing arrivals pool with
  | nil =>
    obtain rfl := List.map_eq_nil_iff.mp (List.eq_nil_of_sublist_nil hlost)
    exact putsOutOnly_nil
  | cons f frames ih =>
    obtain ⟨frame, now⟩ := f
    rw [List.forall_mem_cons] at hunbroken habsent
    rw [List.map_cons, List.nodup_cons] at hdistinct
    rw [List.flatMap_cons, List.sublist_append_iff] at hlost
    obtain ⟨pkts₁, pkts₂, hpkts, hsub₁, hsub₂⟩ := hlost
    obtain ⟨first, second, rfl, rfl, rfl⟩ := List.map_eq_append_iff.mp hpkts
    have hfirst : ∀ a ∈ first, a.pkt.timestamp = frame.stamp now := by
      intro a ha
      exact handleFrame_timestamp a.pkt (hsub₁.subset (List.mem_map_of_mem ha))
    have hsecond : ∀ a ∈ second, ∃ g ∈ frames, a.pkt.timestamp = g.1.stamp g.2 := by
      intro a ha
      obtain ⟨g, hg, hmem⟩ := List.mem_flatMap.mp (hsub₂.subset (List.mem_map_of_mem ha))
      exact ⟨g, hg, handleFrame_timestamp a.pkt hmem⟩
    have hother : ∀ g ∈ frames, frame.stamp now ≠ g.1.stamp g.2 := by
      intro g hg heq
      exact hdistinct.1 (List.mem_map.mpr ⟨g, hg, heq.symm⟩)
    have hfirst' : ∀ g ∈ frames, ∀ a ∈ first, a.pkt.timestamp ≠ g.1.stamp g.2 := by
      intro g hg a ha
      rw [hfirst a ha]
      exact hother g hg
    have hsecond' : ∀ a ∈ second, a.pkt.timestamp ≠ frame.stamp now := by
      intro a ha heq
      obtain ⟨g, hg, htime⟩ := hsecond a ha
      exact hother g hg (heq.symm.trans htime)
    refine putsOutOnly_append ?_ ?_
    · have hown := hunbroken.1
      rw [Unbroken, bearing_append hfirst hsecond'] at hown
      refine (putsOutOnly_frame hfirst habsent.1 hown).mono ?_
      intro nalu hnalu
      exact ⟨(frame, now), List.mem_cons_self, hnalu⟩
    · intro pool' hrun
      have hrest : ∀ g ∈ frames, Unbroken g.1 g.2 second := by
        intro g hg
        have hown := hunbroken.2 g hg
        rw [Unbroken, bearing_append_of_ne (hfirst' g hg)] at hown
        exact hown
      have habsent' : ∀ g ∈ frames, pool'.find (g.1.stamp g.2) = none := by
        intro g hg
        refine Machine.run_invariant (fun pool => pool.find (g.1.stamp g.2) = none) ?_ (habsent.2 g hg) hrun
        intro a ha s written s' hs hturn
        exact turn_keeps_absent hturn (hfirst' g hg a ha) hs
      refine (ih hdistinct.2 hsub₂ hrest habsent').mono ?_
      rintro nalu ⟨g, hg, hnalu⟩
      exact ⟨g, List.mem_cons_of_mem _ hg, hnalu⟩

/-- Theorem 30 (nothing is made up). For every list of frames with distinct timestamps, and every sub-sequence of the packets sent
for them that reaches the client, with any answers of the allocator: if a start of a frame, and an end with memory for what is put
out, arrive only with all of its fragments and with memory for these, then every unit that is put together from the empty pool is
one that was sent, behind its start code. -/
theorem nothing_fabricated (ssrc : UInt32) (seq : UInt16) (frames : List (AVFrame × UInt32)) (arrivals : List Reception)
    (hdistinct : (frames.map fun (frame, now) => frame.stamp now).Nodup)
    (hlost : (arrivals.map Reception.datagram).Sublist (sentFor seq frames))
    (hunbroken : ∀ f ∈ frames, Unbroken f.1 f.2 arrivals) :
    PutsOutOnly ssrc (fun nalu => ∃ f ∈ frames, nalu = [0, 0, 0, 1] ++ f.1.nal) arrivals .init := by
  have hpkts := hlost.map Datagram.pkt
  rw [sentFor, map_pkt_numbered, List.map_map] at hpkts
  refine putsOutOnly_frames hdistinct hpkts hunbroken ?_
  intro f _
  rw [FuPool.find_eq_none_iff]
  intro i hactive
  exact absurd hactive Bool.false_ne_true

end Runs

/-! ## A unit of three fragments -/

/-- Zero bytes. -/
def zeros (n : Nat) : Bytes := List.replicate n 0

@[simp] theorem length_zeros (n : Nat) : (zeros n).length = n := List.length_replicate

@[simp] theorem take_zeros (k n : Nat) : (zeros n).take k = zeros (min k n) := List.take_replicate

@[simp] theorem drop_zeros (k n : Nat) : (zeros n).drop k = zeros (n - k) := List.drop_replicate

/-- A frame with a unit of type 19 and 2837 bytes. -/
def idrFrame (timestamp : UInt32) : AVFrame where
  nal := 0x26 :: 0x01 :: zeros 2835
  timestamp := timestamp
  two_le := by simp
  size_lt := by simp

/-- The packets for it. -/
def idrPackets (timestamp : UInt32) : List RtpPacket :=
  [⟨0x62 :: 0x01 :: 0x93 :: zeros 1417, timestamp, false⟩, ⟨0x62 :: 0x01 :: 0x13 :: zeros 1417, timestamp, false⟩,
    ⟨0x62 :: 0x01 :: 0x53 :: zeros 1, timestamp, true⟩]

theorem handleFrame_idr {timestamp : UInt32} (h : timestamp ≠ 0) (now : UInt32) :
    handleFrame now (idrFrame timestamp) = idrPackets timestamp := by
  have hstamp : (idrFrame timestamp).stamp now = timestamp := if_neg h
  have hlong : ¬(idrFrame timestamp).nal.length ≤ MAX_RTP_PAYLOAD_SIZE := by simp [idrFrame, MAX_RTP_PAYLOAD_SIZE]
  have hfirst : (zeros 2835).length + 3 > MAX_RTP_PAYLOAD_SIZE := by simp [MAX_RTP_PAYLOAD_SIZE]
  have hmiddle : (zeros 1418).length + 3 > MAX_RTP_PAYLOAD_SIZE := by simp [MAX_RTP_PAYLOAD_SIZE]
  have hlast : ¬(zeros 1).length + 3 > MAX_RTP_PAYLOAD_SIZE := by simp [MAX_RTP_PAYLOAD_SIZE]
  have hrest : (zeros 2835).drop (MAX_RTP_PAYLOAD_SIZE - 3) = zeros 1418 := drop_zeros ..
  have hend : (zeros 1418).drop (MAX_RTP_PAYLOAD_SIZE - 3) = zeros 1 := drop_zeros ..
  rw [handleFrame, if_neg hlong, hstamp]
  simp only [idrFrame, List.drop_succ_cons, List.drop_zero]
  rw [fragments, dif_pos hfirst, hrest, fragments, dif_pos hmiddle, hend, fragments, dif_neg hlast, take_zeros, take_zeros]
  rfl

/-- A frame for each timestamp. -/
def idrFrames (timestamps : List UInt32) : List (AVFrame × UInt32) := timestamps.map fun timestamp => (idrFrame timestamp, 0)

/-- Of the packets for these frames, those with some numbers arrive. -/
def idrArrivals (timestamps : List UInt32) (seqs : List UInt16) : List Reception :=
  ((numbered 0 (timestamps.flatMap idrPackets)).filter fun d => d.seq ∈ seqs).map fun d => ⟨d, .grants⟩

theorem idrArrivals_sublist {timestamps : List UInt32} (h : 0 ∉ timestamps) (seqs : List UInt16) :
    ((idrArrivals timestamps seqs).map Reception.datagram).Sublist (sentFor 0 (idrFrames timestamps)) := by
  have hpackets : (idrFrames timestamps).flatMap (fun (frame, now) => handleFrame now frame) = timestamps.flatMap idrPackets := by
    rw [idrFrames, List.flatMap_map]
    refine List.flatMap_congr fun timestamp hmem => handleFrame_idr ?_ 0
    rintro rfl
    exact h hmem
  rw [sentFor, hpackets, idrArrivals, List.map_map]
  exact (List.map_id _).symm ▸ List.filter_sublist

theorem idrArrivals_granted {timestamps : List UInt32} {seqs : List UInt16} :
    ∀ a ∈ idrArrivals timestamps seqs, a.heap = .grants := by
  intro a ha
  obtain ⟨d, -, rfl⟩ := List.mem_map.mp ha
  rfl

/-- Two frames, the first of which arrives whole, and the second without its start. -/
theorem nothing_fabricated_start_lost :
    PutsOutOnly 7 (fun nalu => ∃ f ∈ idrFrames [1, 2], nalu = [0, 0, 0, 1] ++ f.1.nal)
      (idrArrivals [1, 2] [0, 1, 2, 4, 5]) .init := by
  have hgranted : ∀ t, ∀ a ∈ bearing t (idrArrivals [1, 2] [0, 1, 2, 4, 5]), a.heap = .grants := by
    intro t a ha
    exact idrArrivals_granted a (List.mem_filter.mp ha).1
  refine nothing_fabricated 7 0 _ _ (by decide) (idrArrivals_sublist (by decide) _) ?_
  rw [idrFrames, List.forall_mem_map, List.forall_mem_cons, List.forall_mem_singleton]
  constructor
  · intro _ _
    refine ⟨by simp [idrFrame, MAX_RTP_PAYLOAD_SIZE], ?_, ?_, ?_⟩
    · rw [handleFrame_idr (by decide) 0]
      decide +kernel
    · intro a ha _
      exact congrArg Heap.header (hgranted _ a ha)
    · intro a ha _
      exact congrArg Heap.body (hgranted _ a ha)
  · have hnone : ∀ a ∈ bearing 2 (idrArrivals [1, 2] [0, 1, 2, 4, 5]), ¬Starts a.pkt.payload := by decide +kernel
    rintro ⟨a, ha, hstart⟩
    exact absurd hstart (hnone a ha)

/-- With the middle lost, a unit of 1420 bytes is put together from these. -/
theorem middle_lost : ¬∀ (ssrc : UInt32) (seq : UInt16) (frames : List (AVFrame × UInt32)) (arrivals : List Reception),
    (frames.map fun (frame, now) => frame.stamp now).Nodup → (arrivals.map Reception.datagram).Sublist (sentFor seq frames) →
      PutsOutOnly ssrc (fun nalu => ∃ f ∈ frames, nalu = [0, 0, 0, 1] ++ f.1.nal) arrivals .init := by
  intro hall
  have hout := hall 7 0 (idrFrames [1]) (idrArrivals [1] [0, 2]) (List.nodup_singleton _) (idrArrivals_sublist (by decide) _)
  have hrun : (Machine.run (Reception.turn 7) (idrArrivals [1] [0, 2]) .init).1.map
      (fun entry => entry.2.assembled.map List.length) = [none, some 1424] := by
    decide +kernel
  obtain ⟨first, rest, hlog, -, hrest⟩ := List.map_eq_cons_iff.mp hrun
  obtain ⟨second, tail, rfl, hsecond, -⟩ := List.map_eq_cons_iff.mp hrest
  obtain ⟨nalu, hnalu, hlen⟩ := Option.map_eq_some_iff.mp hsecond
  obtain ⟨f, hf, rfl⟩ := hout second (by rw [hlog]; simp) nalu hnalu
  rw [List.mem_singleton.mp hf] at hlen
  simp [idrFrame] at hlen

end AuthVideo
