import AuthVideo.Cipher.ZucTestTime
import AuthVideo.Lemmas.ZucBoxes
import AuthVideo.Lib.BigEndian
import AuthVideo.Lib.Blocks

/-!
# Rounds with masks and without

The class of `test12.py` is that of `test_time.py` less its masks. Here is what one round of each makes of one state, and what their
loops make of a run of states.
-/

namespace AuthVideo

namespace PyZuc

attribute [ext] State

/-! ## The states of a run -/

/-- The state after some rounds: 32 of the initialisation, one whose word is not used, and then one for each word. -/
def stateAt (round : Bool → State → Nat × State) (z : State) : Nat → State
  | 0 => z
  | turn + 1 => (round (decide (turn < 32)) (stateAt round z turn)).2

theorem stateAt_words (round : Bool → State → Nat × State) (z : State) (j : Nat) :
    stateAt round z (33 + (j + 1)) = (round false (stateAt round z (33 + j))).2 := by
  have hlate : decide (33 + j < 32) = false := decide_eq_false (by omega)
  rw [← hlate]
  rfl

theorem stateAt_rounds (round : Bool → State → Nat × State) (z : State) {turns : Nat} (h : turns ≤ 32) :
    (List.range turns).foldl (fun z _ => (round true z).2) z = stateAt round z turns := by
  induction turns with
  | zero => rfl
  | succ turns ih =>
    have hearly : decide (turns < 32) = true := decide_eq_true (by omega)
    rw [List.range_succ, List.foldl_append, ih (by omega), stateAt, hearly]
    rfl

/-- Two runs go through the same states exactly as long as the rounds do the same with them. -/
theorem stateAt_eq_iff {round round' : Bool → State → Nat × State} {good : State → Prop}
    (hround : ∀ init z, (round init z).2 = (round' init z).2 ↔ good z) (z : State) (turns : Nat) :
    (∀ k ≤ turns, stateAt round z k = stateAt round' z k) ↔ ∀ k < turns, good (stateAt round' z k) := by
  constructor
  · intro h k hk
    rw [← hround (decide (k < 32)), ← h k (by omega)]
    have hnext := h (k + 1) hk
    rwa [stateAt, stateAt, ← h k (by omega)] at hnext
  · intro h k
    induction k with
    | zero =>
      intro hk
      rfl
    | succ k ih =>
      intro hk
      rw [stateAt, stateAt, ih (by omega)]
      exact (hround _ _).mpr (h k (by omega))

end PyZuc

namespace TimeZuc

open PyZuc (State bitReorg sFunc SameEntries toBytes4 P31 feedback stateAt stateAt_words stateAt_rounds)

/-! ## One round -/

/-- The masks of `S` change nothing. -/
theorem S_eq (x : Nat) : S x = sFunc x := by
  rw [S, PyZuc.sFunc_and_mask, Word32.and_mask_of_lt (PyZuc.sFunc_lt x)]

/-- The boxes of both rounds read bytes with the same entries. -/
structure Harmless (z : State) : Prop where
  first : SameEntries (Test12Zuc.L1 (Test12Zuc.mixed z).1) (L1 (mixed z).1)
  second : SameEntries (Test12Zuc.L2 (Test12Zuc.mixed z).2) (L2 (mixed z).2)

instance (x y : Nat) : Decidable (SameEntries x y) :=
  decidable_of_iff _ (PyZuc.sFunc_eq_iff x y)

instance (z : State) : Decidable (Harmless z) :=
  decidable_of_iff (_ ∧ _) ⟨fun h => ⟨h.1, h.2⟩, fun h => ⟨h.first, h.second⟩⟩

/-- The addend of the feedback is cut to 31 bits in both. -/
theorem addend_mask (w : Nat) : ((w &&& 0xFFFFFFFF) >>> 1) &&& P31 = (w >>> 1) &&& P31 := by
  rw [P31, Word32.and_mask31, Word32.and_mask31, Word32.and_mask, Nat.shiftRight_eq_div_pow, Nat.shiftRight_eq_div_pow]
  omega

/-- The cells take in the same word. -/
theorem round_s (init : Bool) (z : State) : (Test12Zuc.round init z).2.s = (round init z).2.s := by
  have haddend := addend_mask (((bitReorg z).1 ^^^ z.R1) + z.R2)
  simp only [round, Test12Zuc.round, haddend]

/-- The rounds go to one state exactly when the boxes do not see the missing masks. -/
theorem round_eq_iff (init : Bool) (z : State) : (Test12Zuc.round init z).2 = (round init z).2 ↔ Harmless z := by
  have hR1 : (round init z).2.R1 = sFunc (L1 (mixed z).1) := S_eq _
  have hR2 : (round init z).2.R2 = sFunc (L2 (mixed z).2) := S_eq _
  have hR1' : (Test12Zuc.round init z).2.R1 = sFunc (Test12Zuc.L1 (Test12Zuc.mixed z).1) := rfl
  have hR2' : (Test12Zuc.round init z).2.R2 = sFunc (Test12Zuc.L2 (Test12Zuc.mixed z).2) := rfl
  have hs := round_s init z
  constructor
  · intro h
    constructor
    · rw [← PyZuc.sFunc_eq_iff, ← hR1', h, hR1]
    · rw [← PyZuc.sFunc_eq_iff, ← hR2', h, hR2]
  · rintro ⟨hfirst, hsecond⟩
    rw [← PyZuc.sFunc_eq_iff, ← hR1', ← hR1] at hfirst
    rw [← PyZuc.sFunc_eq_iff, ← hR2', ← hR2] at hsecond
    exact State.ext hs hfirst hsecond

/-- Two halves make a word. -/
theorem halves_lt (a b : Nat) : (a &&& 0xFFFF0000) ||| (b &&& 0xFFFF) < 2 ^ 32 :=
  Nat.or_lt_two_pow (Nat.lt_of_le_of_lt Nat.and_le_right (by decide)) (Nat.lt_of_le_of_lt Nat.and_le_right (by decide))

/-- What a round returns, less the mask. -/
theorem round_out (init : Bool) (z : State) : (round init z).1 = (Test12Zuc.round init z).1 &&& 0xFFFFFFFF := by
  have hmask : ∀ w x : Nat, ((w &&& 0xFFFFFFFF) ^^^ x) &&& 0xFFFFFFFF = (w ^^^ x) &&& 0xFFFFFFFF := by
    intro w x
    rw [Nat.and_xor_distrib_right, Nat.and_xor_distrib_right, Nat.and_assoc, Nat.and_self]
  exact hmask _ _

/-- The sum that makes the output fits into a word. -/
def Fits (z : State) : Prop := ((bitReorg z).1 ^^^ z.R1) + z.R2 < 2 ^ 32

instance (z : State) : Decidable (Fits z) := inferInstanceAs (Decidable (_ < _))

/-- The word that `to_bytes` gets fits exactly when the sum does. -/
theorem round_lt_iff (init : Bool) (z : State) : (Test12Zuc.round init z).1 < 2 ^ 32 ↔ Fits z := by
  have hx3 : (bitReorg z).2.2.2 < 2 ^ 32 := halves_lt _ _
  have hout : (Test12Zuc.round init z).1 = (((bitReorg z).1 ^^^ z.R1) + z.R2) ^^^ (bitReorg z).2.2.2 := rfl
  rw [hout, Fits]
  generalize ((bitReorg z).1 ^^^ z.R1) + z.R2 = w
  generalize (bitReorg z).2.2.2 = x3 at hx3
  constructor
  · intro h
    have hback := Nat.xor_lt_two_pow h hx3
    rwa [Nat.xor_assoc, Nat.xor_self, Nat.xor_zero] at hback
  · intro h
    exact Nat.xor_lt_two_pow h hx3

/-! ## The loops of `keystream` -/

/-- The bytes of a run of words. -/
def wordBytes (word : Nat → Nat) (words : Nat) : Bytes := (List.range words).flatMap fun j => toBytes4 (word j)

theorem wordBytes_succ (word : Nat → Nat) (words : Nat) :
    wordBytes word (words + 1) = toBytes4 (word 0) ++ wordBytes (fun j => word (j + 1)) words := by
  rw [wordBytes, List.range_succ_eq_map, List.flatMap_cons, List.flatMap_map]
  rfl

/-- The bytes of a word are its digits. -/
theorem toBytes4_eq_encode (w : Nat) : toBytes4 w = BigEndian.encode 4 w := by
  simp only [toBytes4, BigEndian.encode_succ, BigEndian.encode_zero, List.nil_append, List.cons_append,
    Nat.shiftRight_eq_div_pow, Nat.div_div_eq_div_mul]

/-- The first bytes of two words are the same exactly when the words are, less the bytes that are cut off. -/
theorem take_toBytes4_eq_iff {w w' : Nat} (hw : w < 2 ^ 32) (hw' : w' < 2 ^ 32) (bytes : Nat) :
    (toBytes4 w).take bytes = (toBytes4 w').take bytes ↔ w / 256 ^ (4 - bytes) = w' / 256 ^ (4 - bytes) := by
  have htake : ∀ v, (toBytes4 v).take bytes = BigEndian.encode (min bytes 4) (v / 256 ^ (4 - bytes)) := by
    intro v
    rw [toBytes4_eq_encode]
    rcases Nat.le_total bytes 4 with hle | hge
    · rw [Nat.min_eq_left hle]
      have hfirst := BigEndian.take_encode bytes (4 - bytes) v
      rwa [Nat.add_sub_cancel' hle] at hfirst
    · rw [List.take_of_length_le (by simpa using hge), Nat.sub_eq_zero_of_le hge, Nat.min_eq_right hge, Nat.pow_zero, Nat.div_one]
  have hlt : ∀ v < 2 ^ 32, v / 256 ^ (4 - bytes) < 256 ^ min bytes 4 := by
    intro v hv
    refine Nat.div_lt_of_lt_mul ?_
    have hall : 4 - bytes + min bytes 4 = 4 := by omega
    rwa [← Nat.pow_add, hall]
  rw [htake, htake, BigEndian.encode_inj (hlt w hw) (hlt w' hw')]

/-- The first bytes of two runs of words are the same exactly when the words are, the last one less the bytes that are cut
off. -/
theorem take_wordBytes_eq_iff {word word' : Nat → Nat} {words : Nat} (hword : ∀ j < words, word j < 2 ^ 32)
    (hword' : ∀ j < words, word' j < 2 ^ 32) (n : Nat) :
    (wordBytes word words).take n = (wordBytes word' words).take n ↔
      ∀ j < words, word j / 256 ^ (4 - (n - 4 * j)) = word' j / 256 ^ (4 - (n - 4 * j)) := by
  have hblocks := Blocks.take_flatMap_eq_iff (n := 4) (f := fun j => toBytes4 (word j)) (g := fun j => toBytes4 (word' j))
    (fun _ => rfl) (fun _ => rfl) words n
  refine hblocks.trans (forall₂_congr ?_)
  intro j hj
  exact take_toBytes4_eq_iff (hword j hj) (hword' j hj) (n - 4 * j)

/-- The words of `test_time.py`, on a run of states. -/
theorem keystreamWords_fst (words : Nat) : ∀ st : Nat → State, (∀ j, st (j + 1) = (round false (st j)).2) →
    (keystreamWords words (st 0)).1 = wordBytes (fun j => (round false (st j)).1) words := by
  induction words with
  | zero =>
    intro st hst
    rfl
  | succ words ih =>
    intro st hst
    have hrest := ih (fun j => st (j + 1)) (fun j => hst (j + 1))
    have hturn : (keystreamWords (words + 1) (st 0)).1 =
        toBytes4 (round false (st 0)).1 ++ (keystreamWords words (round false (st 0)).2).1 := rfl
    rw [wordBytes_succ, hturn, ← hst 0, hrest]

/-- `ZUC256(key, iv).keystream(n)`. -/
def run (key iv : Bytes) (n : Nat) : Except PyError Bytes := do
  let z ← ZUC256 key iv
  return (keystream z n).1

/-- What a run of `test_time.py` gives. -/
theorem run_eq {key iv : Bytes} (hkey : key.length = 32) (hiv : iv ≠ []) (n : Nat) :
    run key iv n = .ok ((wordBytes (fun j => (round false (stateAt round (Test12Zuc.loadCells key iv) (33 + j))).1)
      ((n + 3) / 4)).take n) := by
  have hlength : iv.length ≠ 0 := fun h => hiv (List.length_eq_zero_iff.mp h)
  have hinit : initState key iv = stateAt round (Test12Zuc.loadCells key iv) 33 := by
    rw [initState, stateAt_rounds round _ (by omega)]
    rfl
  have hnew : ZUC256 key iv = .ok (stateAt round (Test12Zuc.loadCells key iv) 33) := by
    rw [ZUC256, if_neg (by omega), if_neg hlength, hinit]
  have hwords := keystreamWords_fst ((n + 3) / 4) (fun j => stateAt round (Test12Zuc.loadCells key iv) (33 + j))
    (stateAt_words round _)
  have hrun : ∀ z, ZUC256 key iv = .ok z → run key iv n = .ok ((keystreamWords ((n + 3) / 4) z).1.take n) := by
    intro z hz
    rw [run, hz]
    rfl
  rw [hrun _ hnew, ← hwords]

end TimeZuc

namespace Test12Zuc

open PyZuc (State toBytes4 stateAt stateAt_words stateAt_rounds)
open TimeZuc (wordBytes wordBytes_succ)

/-- The words of `test12.py`, on a run of states: all of them, or the exception of the first that does not fit. -/
theorem keystreamWords_eq (words : Nat) : ∀ st : Nat → State, (∀ j, st (j + 1) = (round false (st j)).2) →
    keystreamWords words (st 0) = if ∀ j < words, (round false (st j)).1 < 2 ^ 32 then
      .ok (wordBytes (fun j => (round false (st j)).1) words, st words) else .error .overflowError := by
  induction words with
  | zero =>
    intro st hst
    rw [if_pos (by intro j hj; omega)]
    rfl
  | succ words ih =>
    intro st hst
    have hrest := ih (fun j => st (j + 1)) (fun j => hst (j + 1))
    have hturn : keystreamWords (words + 1) (st 0) = if (round false (st 0)).1 < 2 ^ 32 then
        (keystreamWords words (round false (st 0)).2).bind fun rest => .ok (toBytes4 (round false (st 0)).1 ++ rest.1, rest.2)
        else .error .overflowError := rfl
    have hsplit : (∀ j < words + 1, (round false (st j)).1 < 2 ^ 32) ↔
        (round false (st 0)).1 < 2 ^ 32 ∧ ∀ j < words, (round false (st (j + 1))).1 < 2 ^ 32 := Nat.forall_lt_succ_left
    rw [wordBytes_succ, hturn, ← hst 0, hrest]
    by_cases hfirst : (round false (st 0)).1 < 2 ^ 32
    · by_cases hall : ∀ j < words, (round false (st (j + 1))).1 < 2 ^ 32
      · rw [if_pos hfirst, if_pos hall, if_pos (hsplit.mpr ⟨hfirst, hall⟩)]
        rfl
      · rw [if_pos hfirst, if_neg hall, if_neg (fun h => hall (hsplit.mp h).2)]
        rfl
    · rw [if_neg hfirst, if_neg (fun h => hfirst (hsplit.mp h).1)]

/-- `ZUC256(key, iv).keystream(n)`. -/
def run (key iv : Bytes) (n : Nat) : Except Raised Bytes := do
  let z ← ZUC256 key iv
  let p ← keystream z n
  return p.1

/-- What a run of `test12.py` gives. -/
theorem run_eq {key iv : Bytes} (hkey : key.length = 32) (hiv : iv ≠ []) (n : Nat) :
    run key iv n = if ∀ j < (n + 3) / 4, (round false (stateAt round (loadCells key iv) (33 + j))).1 < 2 ^ 32 then
      .ok ((wordBytes (fun j => (round false (stateAt round (loadCells key iv) (33 + j))).1) ((n + 3) / 4)).take n)
      else .error .overflowError := by
  have hinit : initState key iv = stateAt round (loadCells key iv) 33 := by
    rw [initState, stateAt_rounds round _ (by omega)]
    rfl
  have hnew : ZUC256 key iv = .ok (stateAt round (loadCells key iv) 33) := by
    rw [ZUC256, if_neg (by omega), if_neg hiv, if_neg (by omega), hinit]
  have hwords := keystreamWords_eq ((n + 3) / 4) (fun j => stateAt round (loadCells key iv) (33 + j)) (stateAt_words round _)
  have hrun : ∀ z, ZUC256 key iv = .ok z →
      run key iv n = (keystreamWords ((n + 3) / 4) z).bind fun p => .ok (p.1.take n) := by
    intro z hz
    rw [run, hz]
    cases hloop : keystreamWords ((n + 3) / 4) z <;> simp [keystream, hloop, Except.bind, bind, pure, Except.pure]
  rw [hrun _ hnew, hwords]
  split <;> rfl

end Test12Zuc

end AuthVideo
