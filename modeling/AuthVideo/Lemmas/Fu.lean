import AuthVideo.Fu
import AuthVideo.Lemmas.Python
import Mathlib.Tactic.IntervalCases
import Mathlib.Tactic.Ring

/-!
# What a call of `fu_process` does

A buffer keeps what is appended to it while the capacity can be doubled, which is up to `2 ^ 31` bytes. A call changes one buffer
of the pool at most, to one of its own timestamp, and puts out a unit only at a fragment with the end bit.
-/

namespace AuthVideo

/-! ## Capacity -/

theorem Doubled.le {n : Nat} (h : Doubled n) : n ≤ 2 ^ 31 := by
  rcases h with rfl | ⟨k, hk, rfl⟩
  · exact Nat.zero_le _
  · have hpow : 2 ^ k ≤ 2 ^ 20 := Nat.pow_le_pow_right (by decide) hk
    omega

/-- Up to `2 ^ 31` the loop ends. -/
theorem newCapacity_isSome {capacity need : Nat} (hdoubled : Doubled capacity) (hless : capacity < need) (hneed : need ≤ 2 ^ 31) :
    ∃ newCap, newCapacity capacity need = some newCap := by
  have hturn : Loop.Turn (growTurn need) (fun c => ∃ k ≤ 20, c = 2 ^ (11 + k)) (fun c => 31 - c.log2) (fun _ => True) := by
    rintro c ⟨k, hk, rfl⟩
    by_cases hc : 2 ^ (11 + k) < need
    · have hlt : 11 + k < 31 := (Nat.pow_lt_pow_iff_right (a := 2) (by decide)).mp (Nat.lt_of_lt_of_le hc hneed)
      have hnext : 2 ^ (11 + k) * 2 % 2 ^ 32 = 2 ^ (11 + (k + 1)) := by
        rw [← Nat.pow_succ]
        exact Nat.mod_eq_of_lt (Nat.pow_lt_pow_right (by decide) (by omega))
      refine .inl ⟨2 ^ (11 + (k + 1)), ?_, ⟨k + 1, by omega, rfl⟩, ?_⟩
      · rw [growTurn, if_pos hc, hnext]
      · simp only [Nat.log2_two_pow]
        omega
    · exact .inr ⟨2 ^ (11 + k), by rw [growTurn, if_neg hc], trivial⟩
  have hstart : ∃ k ≤ 20, (if capacity ≠ 0 then capacity * 2 % 2 ^ 32 else 2048) = 2 ^ (11 + k) := by
    rcases hdoubled with rfl | ⟨k, hk, rfl⟩
    · exact ⟨0, Nat.zero_le _, rfl⟩
    · have hpow : 2048 * 2 ^ k = 2 ^ (11 + k) := by rw [Nat.pow_add]
      rw [hpow] at hless ⊢
      have hlt : 11 + k < 31 := (Nat.pow_lt_pow_iff_right (a := 2) (by decide)).mp (Nat.lt_of_lt_of_le hless hneed)
      refine ⟨k + 1, by omega, ?_⟩
      rw [if_pos (Nat.ne_of_gt (Nat.two_pow_pos _)), ← Nat.pow_succ]
      exact Nat.mod_eq_of_lt (Nat.pow_lt_pow_right (by decide) (by omega))
  obtain ⟨newCap, hnew, -⟩ : ∃ newCap, newCapacity capacity need = some newCap ∧ True :=
    Loop.iterate_of_variant hturn hstart (by omega)
  exact ⟨newCap, hnew⟩

/-! ## Buffers -/

section Buffers

variable {buf buf' : FuBuffer} {granted : Bool} {need : Nat}

/-- What a call of `fu_buffer_reserve` keeps and gives. -/
structure Reserved (buf : FuBuffer) (need : Nat) (buf' : FuBuffer) : Prop where
  active : buf'.active = buf.active
  timestamp : buf'.timestamp = buf.timestamp
  data : buf'.data = buf.data
  enough : need ≤ buf'.capacity

theorem FuBuffer.reserve_some (h : buf.reserve granted need = .ok (some buf')) : Reserved buf need buf' := by
  unfold FuBuffer.reserve at h
  split at h
  · rename_i hcap
    cases h
    exact ⟨rfl, rfl, rfl, hcap⟩
  · split at h
    · cases h
    · rename_i newCap hnew
      split at h
      · cases h
        exact ⟨rfl, rfl, rfl, (newCapacity_spec hnew buf.doubled).1⟩
      · cases h

theorem FuBuffer.reserve_none (h : buf.reserve granted need = .ok none) : granted = false := by
  unfold FuBuffer.reserve at h
  split at h
  · cases h
  · split at h
    · cases h
    · split at h
      · cases h
      · rename_i hgranted
        exact Bool.not_eq_true _ ▸ hgranted

/-- A request that is granted is fulfilled up to `2 ^ 31` bytes. -/
theorem FuBuffer.reserve_of_le (buf : FuBuffer) (hneed : need ≤ 2 ^ 31) : ∃ buf', buf.reserve true need = .ok (some buf') := by
  unfold FuBuffer.reserve
  by_cases hcap : buf.capacity ≥ need
  · exact ⟨buf, dif_pos hcap⟩
  · obtain ⟨newCap, hnew⟩ := newCapacity_isSome buf.doubled (Nat.not_le.mp hcap) hneed
    rw [dif_neg hcap]
    split
    · rename_i hnone
      rw [hnone] at hnew
      cases hnew
    · exact ⟨_, rfl⟩

theorem FuBuffer.append_ok {bytes : Bytes} (h : buf.append bytes = .ok buf') :
    buf'.active = buf.active ∧ buf'.timestamp = buf.timestamp ∧ buf'.data = buf.data ++ bytes := by
  unfold FuBuffer.append at h
  split at h
  · cases h
    exact ⟨rfl, rfl, rfl⟩
  · cases h

theorem FuBuffer.append_of_le {buf : FuBuffer} (bytes : Bytes) (h : buf.data.length + bytes.length ≤ buf.capacity) :
    ∃ buf', buf.append bytes = .ok buf' := ⟨_, dif_pos h⟩

end Buffers

/-! ## The pool -/

section Pool

variable {pool : FuPool} {timestamp : UInt32} {i : Fin MAX_FU_BUFFERS} {buf : FuBuffer}

theorem FuPool.find_eq_none_iff :
    pool.find timestamp = none ↔ ∀ i, (pool i).active = true → (pool i).timestamp ≠ timestamp := by
  simp [FuPool.find, FuPool.first, List.find?_eq_none]

/-- The buffer that is found. -/
theorem FuPool.of_find (h : pool.find timestamp = some i) : (pool i).active = true ∧ (pool i).timestamp = timestamp := by
  simpa using List.find?_some h

/-- A buffer of the timestamp at `i` is the one that is found. -/
def Settles (pool : FuPool) (timestamp : UInt32) (i : Fin MAX_FU_BUFFERS) : Prop :=
  ∀ buf : FuBuffer, buf.active = true → buf.timestamp = timestamp → (pool.set i buf).find timestamp = some i

theorem settles_of_find (h : pool.find timestamp = some i) : Settles pool timestamp i := by
  intro buf hactive htime
  unfold FuPool.find FuPool.first at h ⊢
  rw [List.find?_eq_some_iff_append] at h ⊢
  obtain ⟨-, before, behind, hsplit, hbefore⟩ := h
  refine ⟨by simp [hactive, htime], before, behind, hsplit, ?_⟩
  intro j hj
  have hne : j ≠ i := by
    rintro rfl
    have hnodup := List.nodup_finRange MAX_FU_BUFFERS
    rw [hsplit] at hnodup
    exact (List.nodup_append.mp hnodup).2.2 j hj j List.mem_cons_self rfl
  rw [FuPool.set_of_ne pool hne]
  exact hbefore j hj

theorem settles_of_none (h : pool.find timestamp = none) (i : Fin MAX_FU_BUFFERS) : Settles pool timestamp i := by
  intro buf hactive htime
  rw [FuPool.find_eq_none_iff] at h
  cases hfind : (pool.set i buf).find timestamp with
  | none =>
    have habsent := FuPool.find_eq_none_iff.mp hfind i
    rw [FuPool.set_self] at habsent
    exact absurd htime (habsent hactive)
  | some j =>
    by_cases hne : j = i
    · rw [hne]
    · have hfound := FuPool.of_find hfind
      rw [FuPool.set_of_ne pool hne] at hfound
      exact absurd hfound.2 (h j hfound.1)

theorem Settles.update (h : Settles pool timestamp i) (buf : FuBuffer) : Settles (pool.set i buf) timestamp i := by
  intro buf' hactive htime
  rw [FuPool.set_set]
  exact h buf' hactive htime

/-- `fu_buffer_get` with a buffer of the timestamp. -/
theorem FuPool.get_of_find (h : pool.find timestamp = some i) (create : Bool) : pool.get timestamp create = some (i, pool) := by
  rw [FuPool.get, h]

/-- `fu_buffer_get` without one, which is not asked to create it. -/
theorem FuPool.get_of_none (h : pool.find timestamp = none) : pool.get timestamp false = none := by
  rw [FuPool.get, h]
  rfl

/-- `fu_buffer_get` asked to create a buffer: it settles, and the pool is changed there at most. -/
theorem FuPool.get_create (pool : FuPool) (timestamp : UInt32) :
    ∃ i pool', pool.get timestamp true = some (i, pool') ∧ Settles pool' timestamp i ∧ (pool' i).active = true ∧
      (pool' i).timestamp = timestamp ∧ ∀ buf, pool'.set i buf = pool.set i buf := by
  cases hfind : pool.find timestamp with
  | some i =>
    have hfound := FuPool.of_find hfind
    exact ⟨i, pool, FuPool.get_of_find hfind true, settles_of_find hfind, hfound.1, hfound.2, fun _ => rfl⟩
  | none =>
    have hcreated : ∀ i, Settles (pool.set i (.fresh timestamp)) timestamp i ∧
        (pool.set i (FuBuffer.fresh timestamp) i).active = true ∧
        (pool.set i (FuBuffer.fresh timestamp) i).timestamp = timestamp ∧
        ∀ buf, (pool.set i (.fresh timestamp)).set i buf = pool.set i buf := by
      intro i
      rw [FuPool.set_self]
      exact ⟨(settles_of_none hfind i).update _, rfl, rfl, fun _ => FuPool.set_set ..⟩
    rw [FuPool.get, hfind]
    simp only [if_true]
    cases pool.first fun buf => !buf.active with
    | some i => exact ⟨i, _, rfl, hcreated i⟩
    | none => exact ⟨_, _, rfl, hcreated _⟩

/-- Any call of `fu_buffer_get` that gives a buffer. -/
theorem FuPool.get_some {pool' : FuPool} {create : Bool} (h : pool.get timestamp create = some (i, pool')) :
    (pool' i).active = true ∧ (pool' i).timestamp = timestamp ∧ ∀ buf, pool'.set i buf = pool.set i buf := by
  cases create with
  | true =>
    obtain ⟨j, pool₁, hget, -, hactive, htime, hset⟩ := FuPool.get_create pool timestamp
    rw [hget] at h
    cases h
    exact ⟨hactive, htime, hset⟩
  | false =>
    cases hfind : pool.find timestamp with
    | none =>
      rw [FuPool.get_of_none hfind] at h
      cases h
    | some j =>
      rw [FuPool.get_of_find hfind] at h
      cases h
      have hfound := FuPool.of_find hfind
      exact ⟨hfound.1, hfound.2, fun _ => rfl⟩

end Pool

/-! ## Fragments -/

/-- The first byte of a fragment of a unit that begins with `b0`. -/
def fuIndicator (b0 : UInt8) : UInt8 := (b0 &&& (0x81 : UInt8)) ||| ((49 : UInt8) <<< 1)

/-- The type of a unit that begins with `b0`. -/
def nalTypeOf (b0 : UInt8) : UInt8 := (b0 &&& 0x7E) >>> 1

/-- The FU header of the first fragment. -/
def fuStart (b0 : UInt8) : UInt8 := 0x80 ||| nalTypeOf b0

/-- The payload of a fragment. -/
def fragment (b0 b1 fu2 : UInt8) (piece : Bytes) : Bytes := [fuIndicator b0, b1, fu2] ++ piece

/-- A property of all bytes is checked on the numbers below 256. -/
theorem forall_byte {P : UInt8 → Prop} (h : ∀ n < 256, P (.ofNat n)) (b : UInt8) : P b := by
  have hb := h b.toNat b.toNat_lt
  rwa [UInt8.ofNat_toNat] at hb

section Bits

variable (b0 b1 : UInt8)

/-- The first fragment has the start bit, not the end bit, and the type of the unit. -/
theorem fuStart_bits : fuStart b0 &&& 0x80 ≠ 0 ∧ fuStart b0 &&& 0x40 = 0 ∧ fuStart b0 &&& 0x3F = nalTypeOf b0 := by
  revert b0
  exact forall_byte (by decide +kernel)

/-- A fragment has type 49. -/
theorem fragment_type :
    ((((((fuIndicator b0).toUInt16 <<< 8) ||| b1.toUInt16) >>> 9) &&& 0x3F).toUInt8 : UInt8) = 49 := by
  apply UInt8.eq_of_toBitVec_eq
  simp only [fuIndicator]
  ext i hi
  interval_cases i <;> simp

/-- The header of the unit is put together from those of the fragment. -/
theorem origHeader_fragment :
    origHeader (((fuIndicator b0).toUInt16 <<< 8) ||| b1.toUInt16) (nalTypeOf b0) = [b0, b1] := by
  simp only [origHeader, fuIndicator, nalTypeOf, List.cons.injEq, and_true]
  constructor
  · apply UInt8.eq_of_toBitVec_eq
    ext i hi
    interval_cases i <;> simp
  · apply UInt8.eq_of_toBitVec_eq
    ext i hi
    interval_cases i <;> simp

end Bits

section Append

variable {heap : Heap} {isEnd : Bool} {i : Fin MAX_FU_BUFFERS} {buf : FuBuffer} {piece : Bytes} {pool pool' : FuPool}
  {out : Option Bytes}

/-- What the end of `fu_process` does: the data is refused, or appended, or put out with what the buffer held. -/
theorem fuAppend_cases (h : fuAppend heap isEnd i buf piece pool = .ok (out, pool')) :
    (heap.body = false ∧ out = none ∧ pool' = pool.set i buf) ∨
      (isEnd = false ∧ out = none ∧ ∃ r : FuBuffer, r.active = buf.active ∧ r.timestamp = buf.timestamp ∧
        r.data = buf.data ++ piece ∧ pool' = pool.set i r) ∨
      (isEnd = true ∧ out = (if heap.result then some (buf.data ++ piece) else none) ∧ pool' = pool.set i .reset) := by
  unfold fuAppend at h
  rw [bind_eq_ok] at h
  obtain ⟨reserved, hreserve, h⟩ := h
  cases reserved with
  | none =>
    cases h
    exact .inl ⟨FuBuffer.reserve_none hreserve, rfl, rfl⟩
  | some r =>
    obtain ⟨hactive, htime, hdata, -⟩ := FuBuffer.reserve_some hreserve
    simp only [bind_eq_ok] at h
    obtain ⟨r', happend, h⟩ := h
    obtain ⟨hactive', htime', hdata'⟩ := FuBuffer.append_ok happend
    rw [hactive] at hactive'
    rw [htime] at htime'
    rw [hdata] at hdata'
    cases isEnd with
    | false =>
      cases h
      exact .inr (.inl ⟨rfl, rfl, r', hactive', htime', hdata', rfl⟩)
    | true =>
      rw [hdata'] at h
      refine .inr (.inr ⟨rfl, ?_⟩)
      cases hresult : heap.result <;> rw [hresult] at h <;> cases h <;> exact ⟨rfl, rfl⟩

/-- It leaves one buffer changed, to one of the same timestamp, and puts a unit out only at an end that has memory for it. -/
theorem fuAppend_leaves {timestamp : UInt32} (hbuf : buf.timestamp = timestamp)
    (h : fuAppend heap isEnd i buf piece pool = .ok (out, pool')) :
    ∃ r : FuBuffer, pool' = pool.set i r ∧ (r.active = true → r.timestamp = timestamp) ∧
      (out ≠ none → isEnd = true ∧ heap.result = true) := by
  rcases fuAppend_cases h with ⟨-, rfl, rfl⟩ | ⟨-, rfl, r, -, hr, -, rfl⟩ | ⟨hend, hsome, rfl⟩
  · exact ⟨buf, rfl, fun _ => hbuf, fun hout => absurd rfl hout⟩
  · exact ⟨r, rfl, fun _ => hr.trans hbuf, fun hout => absurd rfl hout⟩
  · refine ⟨.reset, rfl, fun hreset => absurd hreset Bool.false_ne_true, ?_⟩
    intro hout
    rw [hsome] at hout
    exact ⟨hend, (ite_ne_right_iff.mp hout).1⟩

/-- With a request that is granted, it returns exactly when the buffer then holds at most `2 ^ 31` bytes. -/
theorem fuAppend_returns_iff (isEnd : Bool) (i : Fin MAX_FU_BUFFERS) (buf : FuBuffer) (piece : Bytes) (pool : FuPool)
    (hbody : heap.body = true) :
    (∃ result, fuAppend heap isEnd i buf piece pool = .ok result) ↔ buf.data.length + piece.length ≤ 2 ^ 31 := by
  have hle := buf.doubled.le
  have hfits := buf.fits
  unfold fuAppend
  rw [hbody]
  constructor
  · rintro ⟨result, h⟩
    rw [bind_eq_ok] at h
    obtain ⟨reserved, hreserve, h⟩ := h
    cases reserved with
    | none => cases FuBuffer.reserve_none hreserve
    | some r =>
      simp only [bind_eq_ok] at h
      obtain ⟨r', happend, -⟩ := h
      have hdata := (FuBuffer.append_ok happend).2.2
      rw [(FuBuffer.reserve_some hreserve).data] at hdata
      have hlen := r'.fits
      have hcap := r'.doubled.le
      rw [hdata, List.length_append] at hlen
      omega
  · intro hsize
    have hmod : (buf.data.length + piece.length) % 2 ^ 32 = buf.data.length + piece.length := Nat.mod_eq_of_lt (by omega)
    obtain ⟨r, hreserve⟩ := buf.reserve_of_le hsize
    obtain ⟨-, -, hdata, henough⟩ := FuBuffer.reserve_some hreserve
    obtain ⟨r', happend⟩ := FuBuffer.append_of_le piece (by rw [hdata]; exact henough)
    rw [hmod, hreserve, ok_bind]
    simp only [happend, ok_bind]
    cases isEnd with
    | false => exact ⟨_, rfl⟩
    | true => cases heap.result <;> exact ⟨_, rfl⟩

end Append

section Process

variable {heap : Heap} {b0 b1 fu2 : UInt8} {piece payload : Bytes} {timestamp : UInt32} {pool pool' : FuPool}
  {i : Fin MAX_FU_BUFFERS} {out : Option Bytes}

/-- The type of a payload, as `fu_process` reads it. -/
def payloadType (payload : Bytes) : UInt8 :=
  (((((payload.getD 0 0).toUInt16 <<< 8) ||| (payload.getD 1 0).toUInt16) >>> 9) &&& 0x3F).toUInt8

/-- A fragment with the start bit, whose first request is granted, starts the data of its timestamp over. -/
theorem fuProcess_start (b1 : UInt8) (piece : Bytes) (timestamp : UInt32) (pool : FuPool) (hheader : heap.header = true)
    (hstart : fu2 &&& 0x80 ≠ 0) (htype : fu2 &&& 0x3F = nalTypeOf b0) :
    ∃ (i : Fin MAX_FU_BUFFERS) (buf : FuBuffer) (pool₁ : FuPool),
      fuProcess heap (fragment b0 b1 fu2 piece) timestamp pool = fuAppend heap (decide (fu2 &&& 0x40 ≠ 0)) i buf piece pool₁ ∧
        Settles pool₁ timestamp i ∧ buf.active = true ∧ buf.timestamp = timestamp ∧ buf.data = [0, 0, 0, 1, b0, b1] := by
  obtain ⟨i, pool₁, hget, hsettles, hactive, htime, -⟩ := FuPool.get_create pool timestamp
  have hsix : (pool₁ i).clear.data.length + 6 ≤ 2 ^ 31 := by
    rw [FuBuffer.clear, List.length_nil]
    decide
  obtain ⟨r, hreserve⟩ := (pool₁ i).clear.reserve_of_le hsix
  obtain ⟨hractive, hrtime, hrdata, henough⟩ := FuBuffer.reserve_some hreserve
  obtain ⟨r', happend⟩ := FuBuffer.append_of_le ([0, 0, 0, 1] ++ [b0, b1]) (by rw [hrdata]; exact henough)
  obtain ⟨hactive', htime', hdata'⟩ := FuBuffer.append_ok happend
  refine ⟨i, r', pool₁, ?_, hsettles, ?_, ?_, ?_⟩
  · have hpayload : (fragment b0 b1 fu2 piece).length = piece.length + 3 := rfl
    have hdrop : (fragment b0 b1 fu2 piece).drop 3 = piece := rfl
    have hfirst : (fragment b0 b1 fu2 piece).getD 0 0 = fuIndicator b0 := rfl
    have hsecond : (fragment b0 b1 fu2 piece).getD 1 0 = b1 := rfl
    have hthird : (fragment b0 b1 fu2 piece).getD 2 0 = fu2 := rfl
    rw [fuProcess, if_neg (by omega)]
    simp only [hfirst, hsecond, hthird, fragment_type, ne_eq, not_true_eq_false, if_false, hstart, not_false_eq_true, decide_true,
      hget, if_true, hheader, hreserve, ok_bind, htype, origHeader_fragment, happend, hdrop]
  · rw [hactive', hractive]
    exact hactive
  · rw [htime', hrtime]
    exact htime
  · rw [hdata', hrdata]
    rfl

/-- A further fragment of a timestamp that has a buffer. -/
theorem fuProcess_next (hfind : pool.find timestamp = some i) (hnot : fu2 &&& 0x80 = 0) :
    fuProcess heap (fragment b0 b1 fu2 piece) timestamp pool =
      fuAppend heap (decide (fu2 &&& 0x40 ≠ 0)) i (pool i) piece pool := by
  have hpayload : (fragment b0 b1 fu2 piece).length = piece.length + 3 := rfl
  have hdrop : (fragment b0 b1 fu2 piece).drop 3 = piece := rfl
  have hfirst : (fragment b0 b1 fu2 piece).getD 0 0 = fuIndicator b0 := rfl
  have hsecond : (fragment b0 b1 fu2 piece).getD 1 0 = b1 := rfl
  have hthird : (fragment b0 b1 fu2 piece).getD 2 0 = fu2 := rfl
  have hactive := (FuPool.of_find hfind).1
  rw [fuProcess, if_neg (by omega)]
  simp only [hfirst, hsecond, hthird, fragment_type, ne_eq, not_true_eq_false, if_false, hnot, decide_false, Bool.false_eq_true,
    FuPool.get_of_find hfind, hactive, Bool.not_true, hdrop]

/-- A payload without the start bit is ignored while its timestamp has no buffer. -/
theorem fuProcess_ignored (hfind : pool.find timestamp = none) (hnot : payload.getD 2 0 &&& 0x80 = 0) :
    fuProcess heap payload timestamp pool = .ok (none, pool) := by
  unfold fuProcess
  split
  · rfl
  · simp only [hnot, ne_eq, not_true_eq_false, decide_false, FuPool.get_of_none hfind]
    split <;> rfl

/-- What any call does: nothing, or a change of one buffer to one of its timestamp, with a unit put out only at the end bit. -/
theorem fuProcess_cases (h : fuProcess heap payload timestamp pool = .ok (out, pool')) :
    (out = none ∧ pool' = pool) ∨
      ∃ i buf, pool' = pool.set i buf ∧ (buf.active = true → buf.timestamp = timestamp) ∧
        (out ≠ none → 3 ≤ payload.length ∧ payloadType payload = 49 ∧ payload.getD 2 0 &&& 0x40 ≠ 0 ∧ heap.result = true) := by
  unfold fuProcess at h
  split at h
  · cases h
    exact .inl ⟨rfl, rfl⟩
  · rename_i hlen
    simp only at h
    split at h
    · cases h
      exact .inl ⟨rfl, rfl⟩
    · rename_i htype
      rw [not_not] at htype
      split at h
      · cases h
        exact .inl ⟨rfl, rfl⟩
      · rename_i i pool₁ hget
        obtain ⟨hactive, htime, hset⟩ := FuPool.get_some hget
        have hended : decide (payload.getD 2 0 &&& 0x40 ≠ 0) = true ∧ heap.result = true →
            3 ≤ payload.length ∧ payloadType payload = 49 ∧ payload.getD 2 0 &&& 0x40 ≠ 0 ∧ heap.result = true := by
          rintro ⟨hend, hresult⟩
          exact ⟨Nat.not_lt.mp hlen, htype, of_decide_eq_true hend, hresult⟩
        split at h
        · obtain ⟨reserved, hreserve, h⟩ := bind_eq_ok.mp h
          cases reserved with
          | none =>
            cases h
            exact .inr ⟨i, _, hset _, fun _ => htime, fun hout => absurd rfl hout⟩
          | some r =>
            obtain ⟨r', hr', h⟩ := bind_eq_ok.mp h
            have htime' := (FuBuffer.append_ok hr').2.1
            rw [(FuBuffer.reserve_some hreserve).timestamp] at htime'
            obtain ⟨buf, hpool, hbuf, hout⟩ := fuAppend_leaves (htime'.trans htime) h
            rw [hset] at hpool
            exact .inr ⟨i, buf, hpool, hbuf, fun hne => hended (hout hne)⟩
        · rw [hactive, if_neg (by decide)] at h
          obtain ⟨buf, hpool, hbuf, hout⟩ := fuAppend_leaves htime h
          rw [hset] at hpool
          exact .inr ⟨i, buf, hpool, hbuf, fun hne => hended (hout hne)⟩

end Process

/-! ## Calls -/

/-- A call of `fu_process`. -/
structure FuCall where
  heap : Heap
  payload : Bytes
  timestamp : UInt32

/-- The call on a pool. -/
def FuCall.run (call : FuCall) (pool : FuPool) : Except FuFault (Option Bytes × FuPool) :=
  fuProcess call.heap call.payload call.timestamp pool

/-- The payloads of the fragments of a unit, from the FU header of the first on: the start bit goes after one fragment, and the end
bit comes with the last. -/
def fuPayloads (b0 b1 fu2 : UInt8) : Bytes → List Bytes → List Bytes
  | piece, [] => [fragment b0 b1 (fu2 ||| 0x40) piece]
  | piece, next :: pieces => fragment b0 b1 fu2 piece :: fuPayloads b0 b1 (fu2 &&& ~~~0x80) next pieces

theorem fuPayloads_ne_nil {b0 b1 fu2 : UInt8} {piece : Bytes} {pieces : List Bytes} : fuPayloads b0 b1 fu2 piece pieces ≠ [] := by
  cases pieces <;> exact List.cons_ne_nil _ _

/-! ## FU headers -/

/-- The bits of an FU header after the loop has cleared its start bit, and with the end bit. -/
theorem fu2_bits (fu2 : UInt8) :
    (fu2 &&& ~~~0x80) &&& 0x80 = 0 ∧ (fu2 &&& ~~~0x80) &&& 0x40 = fu2 &&& 0x40 ∧ (fu2 ||| 0x40) &&& 0x40 ≠ 0 ∧
      (fu2 ||| 0x40) &&& 0x80 = fu2 &&& 0x80 ∧ (fu2 ||| 0x40) &&& 0x3F = fu2 &&& 0x3F := by
  revert fu2
  exact forall_byte (by decide +kernel)

end AuthVideo
