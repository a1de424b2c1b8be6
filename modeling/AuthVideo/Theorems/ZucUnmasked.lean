import AuthVideo.Lemmas.ZucUnmasked

/-!
# Theorem 38: the ciphers of the two scripts

Without masks the words that the boxes read are not those of the masked class, and a word of the keystream can have 33 bits. The two
classes go through the same states exactly as long as the boxes do not see the difference, and then `test12.py` raises exactly when a
sum does not fit. Once they have parted, the bytes that are put out are the same only where two sums happen to agree.
-/

namespace AuthVideo

namespace TimeZuc

open PyZuc (State bitReorg stateAt stateAt_eq_iff)

/-- The states that `test_time.py` goes through. -/
abbrev states (key iv : Bytes) : Nat → State := stateAt round (Test12Zuc.loadCells key iv)

/-- The states that `test12.py` goes through. -/
abbrev unmaskedStates (key iv : Bytes) : Nat → State := stateAt Test12Zuc.round (Test12Zuc.loadCells key iv)

/-- The sum `(x0 ^ R1) + R2` of a state, xored with its `x3` and not masked. -/
def unmaskedWord (z : State) : Nat := (((bitReorg z).1 ^^^ z.R1) + z.R2) ^^^ (bitReorg z).2.2.2

/-- A state of `test12.py` and one of `test_time.py` before the round of a word of which so many bytes are put out: the sum of the
first one fits, and it has these bytes of the masked sum of the second one. -/
structure SameBytes (z' z : State) (bytes : Nat) : Prop where
  fits : Fits z'
  same : unmaskedWord z' / 256 ^ (4 - bytes) = unmaskedWord z % 2 ^ 32 / 256 ^ (4 - bytes)

instance (z' z : State) (bytes : Nat) : Decidable (SameBytes z' z bytes) :=
  decidable_of_iff (_ ∧ _) ⟨fun h => ⟨h.1, h.2⟩, fun h => ⟨h.fits, h.same⟩⟩

/-- No mask matters for so many words: the boxes never see a difference, and the sums of the words that are put out fit. -/
structure Clean (key iv : Bytes) (words : Nat) : Prop where
  harmless : ∀ k < 32 + words, Harmless (states key iv k)
  fits : ∀ j < words, Fits (states key iv (33 + j))

/-- Both classes put out the same bytes and neither raises. -/
def Agree (key iv : Bytes) (n : Nat) : Prop := ∃ out, Test12Zuc.run key iv n = .ok out ∧ run key iv n = .ok out

/-- The states are the same up to the last one that puts out a word exactly when the boxes never see a difference. -/
theorem states_eq_iff (key iv : Bytes) (turns : Nat) :
    (∀ k ≤ turns, unmaskedStates key iv k = states key iv k) ↔
      ∀ k < turns, Harmless (states key iv k) := stateAt_eq_iff round_eq_iff _ turns

/-- The bytes are the same exactly when they are at the two states of each word. -/
theorem agree_iff_forall {key iv : Bytes} (hkey : key.length = 32) (hiv : iv ≠ []) (n : Nat) :
    Agree key iv n ↔
      ∀ j < (n + 3) / 4, SameBytes (unmaskedStates key iv (33 + j)) (states key iv (33 + j)) (n - 4 * j) := by
  have hmask : ∀ z, (round false z).1 = unmaskedWord z % 2 ^ 32 := fun z => (round_out false z).trans (Word32.and_mask _)
  have hbytes := fun hfits => @take_wordBytes_eq_iff (fun j => (Test12Zuc.round false (unmaskedStates key iv (33 + j))).1)
    (fun j => (round false (states key iv (33 + j))).1) ((n + 3) / 4) hfits
    (fun j _ => by rw [hmask]; exact Nat.mod_lt _ (by decide)) n
  unfold Agree
  rw [Test12Zuc.run_eq hkey hiv, run_eq hkey hiv]
  constructor
  · rintro ⟨out, hleft, hright⟩
    split at hleft
    · rename_i hfits
      have hleft := (Except.ok.inj hleft).trans (Except.ok.inj hright).symm
      intro j hj
      refine ⟨(round_lt_iff false _).mp (hfits j hj), ?_⟩
      have hsame := (hbytes hfits).mp hleft j hj
      rwa [hmask] at hsame
    · cases hleft
  · intro h
    have hfits : ∀ j < (n + 3) / 4, (Test12Zuc.round false (unmaskedStates key iv (33 + j))).1 < 2 ^ 32 :=
      fun j hj => (round_lt_iff false _).mpr (h j hj).fits
    refine ⟨_, if_pos hfits, ?_⟩
    rw [Except.ok.injEq]
    refine ((hbytes hfits).mpr ?_).symm
    intro j hj
    rw [hmask]
    exact (h j hj).same

/-- At one state the bytes are the same when the sum fits. -/
theorem Fits.sameBytes {z : State} (h : Fits z) (bytes : Nat) : SameBytes z z bytes := by
  have hlt : unmaskedWord z < 2 ^ 32 := (round_lt_iff false z).mpr h
  exact ⟨h, by rw [Nat.mod_eq_of_lt hlt]⟩

/-- A clean run puts out the same bytes. -/
theorem Clean.agree {key iv : Bytes} (hkey : key.length = 32) (hiv : iv ≠ []) {n : Nat} (h : Clean key iv ((n + 3) / 4)) :
    Agree key iv n := by
  have hall := (states_eq_iff key iv (32 + (n + 3) / 4)).mpr h.harmless
  refine (agree_iff_forall hkey hiv n).mpr ?_
  intro j hj
  rw [hall (33 + j) (by omega)]
  exact (h.fits j hj).sameBytes _

end TimeZuc

end AuthVideo
