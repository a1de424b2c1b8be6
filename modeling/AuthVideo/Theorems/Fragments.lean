import AuthVideo.Lemmas.Fu

/-!
# Theorem 29: when fragments become their unit again

Fragments that reach `fu_process` in order and without others between them grow the buffer of their timestamp, whatever the pool
held before. The unit comes out at the end unless the buffer needs more than `2 ^ 31` bytes: the capacity then doubles to zero, and
the loop that doubles it never ends.
-/

namespace AuthVideo

/-! ## Calls -/

/-- The calls for payloads of one timestamp, with an allocator that grants all. -/
def fuCalls (timestamp : UInt32) (payloads : List Bytes) : List FuCall := payloads.map fun payload => ⟨.grants, payload, timestamp⟩

/-- Every call returns, and the last alone puts a unit out. -/
def PutsOut (calls : List FuCall) (pool : FuPool) (nalu : Bytes) : Prop :=
  (∃ pool', (Machine.run FuCall.run calls pool).2 = .ok pool') ∧
    (Machine.run FuCall.run calls pool).1.map Prod.snd = List.replicate (calls.length - 1) none ++ [some nalu]

/-! ## Runs -/

section Runs

variable {call : FuCall} {b0 b1 fu2 : UInt8} {piece : Bytes} {pieces : List Bytes} {timestamp : UInt32}
  {pool pool₁ : FuPool} {i : Fin MAX_FU_BUFFERS} {buf : FuBuffer}

/-- A last fragment puts out what the buffer held and its own bytes, when these fit. -/
theorem putsOut_end (hrun : call.run pool = fuAppend .grants true i buf piece pool₁) :
    PutsOut [call] pool (buf.data ++ piece) ↔ buf.data.length + piece.length ≤ 2 ^ 31 := by
  rw [← fuAppend_returns_iff true i buf piece pool₁ (show Heap.grants.body = true from rfl), ← hrun]
  constructor
  · rintro ⟨⟨pool', hok⟩, -⟩
    cases hresult : call.run pool with
    | error fault =>
      rw [Machine.run_cons_error hresult] at hok
      cases hok
    | ok result => exact ⟨result, rfl⟩
  · rintro ⟨⟨out, pool'⟩, hresult⟩
    rw [PutsOut, Machine.run_cons_ok hresult]
    refine ⟨⟨pool', rfl⟩, ?_⟩
    rw [hrun] at hresult
    rcases fuAppend_cases hresult with ⟨hfalse, -⟩ | ⟨hfalse, -⟩ | ⟨-, rfl, -⟩
    · cases hfalse
    · cases hfalse
    · rfl

/-- A fragment before the last puts nothing out, and leaves its bytes behind those of the buffer, for the calls that follow. -/
theorem putsOut_next (calls : List FuCall) (behind : Bytes) (hrun : call.run pool = fuAppend .grants false i buf piece pool₁)
    (hsettles : Settles pool₁ timestamp i) (hactive : buf.active = true) (htime : buf.timestamp = timestamp) (hcalls : calls ≠ [])
    (hnext : ∀ pool' : FuPool, pool'.find timestamp = some i →
      (PutsOut calls pool' ((pool' i).data ++ behind) ↔ (pool' i).data.length + behind.length ≤ 2 ^ 31)) :
    PutsOut (call :: calls) pool (buf.data ++ (piece ++ behind)) ↔ buf.data.length + (piece ++ behind).length ≤ 2 ^ 31 := by
  have hlen : (call :: calls).length - 1 = calls.length - 1 + 1 := by
    have := List.length_pos_iff.mpr hcalls
    rw [List.length_cons]
    omega
  have hreturns := fuAppend_returns_iff false i buf piece pool₁ (show Heap.grants.body = true from rfl)
  rw [← hrun] at hreturns
  cases hresult : call.run pool with
  | error fault =>
    rw [PutsOut, Machine.run_cons_error hresult]
    constructor
    · rintro ⟨⟨pool', hok⟩, -⟩
      cases hok
    · intro hsize
      rw [List.length_append] at hsize
      obtain ⟨result, hok⟩ := hreturns.mpr (by omega)
      rw [hresult] at hok
      cases hok
  | ok result =>
    obtain ⟨out, pool'⟩ := result
    have happend := hresult
    rw [hrun] at happend
    rcases fuAppend_cases happend with ⟨hfalse, -⟩ | ⟨-, rfl, r, hr, hrtime, hdata, rfl⟩ | ⟨hfalse, -⟩
    · cases hfalse
    · have hrest := hnext _ (hsettles r (hr.trans hactive) (hrtime.trans htime))
      rw [FuPool.set_self, hdata, List.append_assoc, List.length_append, Nat.add_assoc, ← List.length_append] at hrest
      rw [← hrest, PutsOut, Machine.run_cons_ok hresult, PutsOut, hlen, List.replicate_succ, List.cons_append, List.map_cons]
      constructor
      · rintro ⟨hok, hout⟩
        exact ⟨hok, (List.cons.inj hout).2⟩
      · rintro ⟨hok, hout⟩
        exact ⟨hok, by rw [hout]⟩
    · cases hfalse

/-- Fragments behind the first, by induction on their number. -/
theorem putsOut_rest (hnot : fu2 &&& 0x80 = 0) (hend : fu2 &&& 0x40 = 0) (hfind : pool.find timestamp = some i) :
    PutsOut (fuCalls timestamp (fuPayloads b0 b1 fu2 piece pieces)) pool ((pool i).data ++ (piece :: pieces).flatten) ↔
      (pool i).data.length + (piece :: pieces).flatten.length ≤ 2 ^ 31 := by
  obtain ⟨hcleared, hkept, hended, hstart, -⟩ := fu2_bits fu2
  have hfound := FuPool.of_find hfind
  induction pieces generalizing pool i piece fu2 with
  | nil =>
    have hrun : FuCall.run ⟨.grants, fragment b0 b1 (fu2 ||| 0x40) piece, timestamp⟩ pool =
        fuAppend .grants true i (pool i) piece pool := by
      rw [FuCall.run, fuProcess_next hfind (hstart.trans hnot), decide_eq_true hended]
    have hlast := putsOut_end hrun
    rw [List.flatten_singleton]
    exact hlast
  | cons next pieces ih =>
    have hrun : FuCall.run ⟨.grants, fragment b0 b1 fu2 piece, timestamp⟩ pool =
        fuAppend .grants false i (pool i) piece pool := by
      rw [FuCall.run, fuProcess_next hfind hnot, decide_eq_false (not_not.mpr hend)]
    refine putsOut_next _ _ hrun (settles_of_find hfind) hfound.1 hfound.2 (List.map_eq_nil_iff.not.mpr fuPayloads_ne_nil) ?_
    intro pool' hfind'
    obtain ⟨hcleared', hkept', hended', hstart', -⟩ := fu2_bits (fu2 &&& ~~~0x80)
    exact ih hcleared (hkept.trans hend) hfind' hcleared' hkept' hended' hstart' (FuPool.of_find hfind')

/-- A unit of one fragment. -/
theorem putsOut_whole (pool : FuPool) (timestamp : UInt32) (b0 b1 : UInt8) (piece : Bytes) :
    PutsOut (fuCalls timestamp (fuPayloads b0 b1 (fuStart b0) piece [])) pool ([0, 0, 0, 1, b0, b1] ++ piece) ↔
      6 + piece.length ≤ 2 ^ 31 := by
  obtain ⟨hstart, -, htype⟩ := fuStart_bits b0
  obtain ⟨-, -, hended, hstart', htype'⟩ := fu2_bits (fuStart b0)
  obtain ⟨i, buf, pool₁, hrun, -, -, -, hdata⟩ :=
    fuProcess_start b1 piece timestamp pool (show Heap.grants.header = true from rfl) (hstart'.symm ▸ hstart) (htype'.trans htype)
  rw [decide_eq_true hended] at hrun
  have hlast : PutsOut [⟨.grants, fragment b0 b1 (fuStart b0 ||| 0x40) piece, timestamp⟩] pool (buf.data ++ piece) ↔ _ :=
    putsOut_end hrun
  rw [hdata] at hlast
  exact hlast

/-- A unit of more fragments. -/
theorem putsOut_cut (pool : FuPool) (timestamp : UInt32) (b0 b1 : UInt8) (piece next : Bytes) (pieces : List Bytes) :
    PutsOut (fuCalls timestamp (fuPayloads b0 b1 (fuStart b0) piece (next :: pieces))) pool
        ([0, 0, 0, 1, b0, b1] ++ (piece ++ (next :: pieces).flatten)) ↔
      6 + (piece ++ (next :: pieces).flatten).length ≤ 2 ^ 31 := by
  obtain ⟨hstart, hend, htype⟩ := fuStart_bits b0
  obtain ⟨hcleared, hkept, -⟩ := fu2_bits (fuStart b0)
  obtain ⟨i, buf, pool₁, hrun, hsettles, hactive, htime, hdata⟩ :=
    fuProcess_start b1 piece timestamp pool (show Heap.grants.header = true from rfl) hstart htype
  rw [decide_eq_false (not_not.mpr hend)] at hrun
  have hcall : FuCall.run ⟨.grants, fragment b0 b1 (fuStart b0) piece, timestamp⟩ pool =
      fuAppend .grants false i buf piece pool₁ := hrun
  have hstep := putsOut_next (fuCalls timestamp (fuPayloads b0 b1 (fuStart b0 &&& ~~~0x80) next pieces)) (next :: pieces).flatten
    hcall hsettles hactive htime (List.map_eq_nil_iff.not.mpr fuPayloads_ne_nil)
    fun pool' hfind' => putsOut_rest hcleared (hkept.trans hend) hfind'
  rw [hdata] at hstep
  exact hstep

/-- Theorem 29 (reassembly). For every state of the pool, every timestamp, and every cut of a NAL unit behind its header into
fragments, with all requests granted: the calls in front of the last put nothing out, and the last puts out the start code and the
unit, exactly when these take at most `2 ^ 31` bytes. -/
theorem fu_reassembles_iff (pool : FuPool) (timestamp : UInt32) (b0 b1 : UInt8) (piece : Bytes) (pieces : List Bytes) :
    PutsOut (fuCalls timestamp (fuPayloads b0 b1 (fuStart b0) piece pieces)) pool
        ([0, 0, 0, 1] ++ b0 :: b1 :: (piece :: pieces).flatten) ↔
      4 + (b0 :: b1 :: (piece :: pieces).flatten).length ≤ 2 ^ 31 := by
  have hunit : ∀ bytes : Bytes, [0, 0, 0, 1] ++ b0 :: b1 :: bytes = [0, 0, 0, 1, b0, b1] ++ bytes := fun _ => rfl
  have hsize : ∀ bytes : Bytes, 4 + (b0 :: b1 :: bytes).length = 6 + bytes.length := by
    intro bytes
    simp only [List.length_cons]
    omega
  rw [hunit, hsize]
  cases pieces with
  | nil =>
    rw [List.flatten_singleton]
    exact putsOut_whole pool timestamp b0 b1 piece
  | cons next pieces =>
    rw [List.flatten_cons]
    exact putsOut_cut pool timestamp b0 b1 piece next pieces

/-- A unit of `2 ^ 31 + 2` bytes that comes in one fragment is not put out. -/
theorem long_unit_lost : ¬∀ (pool : FuPool) (timestamp : UInt32) (b0 b1 : UInt8) (piece : Bytes) (pieces : List Bytes),
    PutsOut (fuCalls timestamp (fuPayloads b0 b1 (fuStart b0) piece pieces)) pool
      ([0, 0, 0, 1] ++ b0 :: b1 :: (piece :: pieces).flatten) := by
  intro hall
  have hout := hall .init 0 0x26 0x01 (List.replicate (2 ^ 31) 0) []
  rw [List.flatten_singleton] at hout
  have hsize := (putsOut_whole .init 0 0x26 0x01 (List.replicate (2 ^ 31) 0)).mp hout
  rw [List.length_replicate] at hsize
  omega

end Runs

end AuthVideo
