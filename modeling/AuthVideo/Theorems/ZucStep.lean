import AuthVideo.Lemmas.ZucBoxes
import AuthVideo.Lemmas.ZucCells

/-!
# Theorem 37: the step of the keystream

The feedback and the mixing of the registers lose nothing. The boxes do: the tables hold some entries twice, and two states that differ
only in bytes with one entry go to the same state.
-/

namespace AuthVideo

namespace CZuc

attribute [ext] Zuc256Ctx

/-! ## The registers -/

/-- The words whose bytes the boxes read. -/
def boxWords (ctx : Zuc256Ctx) : UInt32 × UInt32 :=
  let (_, x1, x2, _) := bitReorg ctx
  let w1 := ctx.R1 + x1
  let w2 := ctx.R2 ^^^ x2
  (L1 ((w1 <<< 16) ||| (w2 >>> 16)), L2 ((w2 <<< 16) ||| (w1 >>> 16)))

theorem keystreamWord_R1 (ctx : Zuc256Ctx) : (zuc256KeystreamWord ctx).2.R1 = sFunc (boxWords ctx).1 := rfl

theorem keystreamWord_R2 (ctx : Zuc256Ctx) : (zuc256KeystreamWord ctx).2.R2 = sFunc (boxWords ctx).2 := rfl

/-- `S_func` keeps the entries and nothing else. -/
theorem sFunc_eq_iff (x y : UInt32) : sFunc x = sFunc y ↔ PyZuc.SameEntries x.toNat y.toNat := by
  rw [← UInt32.toNat_inj, sFunc_toNat, sFunc_toNat, PyZuc.sFunc_eq_iff]

/-! ## The cells -/

/-- The feedback gives the lowest cell back when the others are known. -/
theorem cells_eq_of_shift {ctx ctx' : Zuc256Ctx} (h : ctx.Cells) (h' : ctx'.Cells)
    (heq : shift ctx.s (feedback ctx.s) = shift ctx'.s (feedback ctx'.s)) : ctx.s = ctx'.s := by
  have hupper : ∀ i : Fin 15, ctx.s.get i.succ = ctx'.s.get i.succ := by
    intro i
    rw [← shift_get ctx.s (feedback ctx.s), heq, shift_get]
  have hlast : feedback ctx.s = feedback ctx'.s := congrArg (Vector.get · 15) heq
  have hrec : recurrence ctx.s ≡ recurrence ctx'.s [MOD 2 ^ 31 - 1] := by
    have hfeedback := feedback_modEq h.fits
    rw [hlast] at hfeedback
    exact hfeedback.symm.trans (feedback_modEq h'.fits)
  have htaps : ∀ s : Vector UInt32 16, recurrence s = 2 ^ 15 * (s.get (14 : Fin 15).succ).toNat +
      2 ^ 17 * (s.get (12 : Fin 15).succ).toNat + 2 ^ 21 * (s.get (9 : Fin 15).succ).toNat +
      2 ^ 20 * (s.get (3 : Fin 15).succ).toNat + (1 + 2 ^ 8) * (s.get 0).toNat := fun _ => rfl
  rw [htaps, htaps, hupper, hupper, hupper, hupper] at hrec
  have hlowest : (ctx.s.get 0).toNat ≡ (ctx'.s.get 0).toNat [MOD 2 ^ 31 - 1] :=
    Nat.ModEq.cancel_left_of_coprime (by decide) (Nat.ModEq.add_left_cancel' _ hrec)
  have hzero : ctx.s.get 0 = ctx'.s.get 0 := UInt32.toNat_inj.mp ((h 0).eq_of_modEq (h' 0) hlowest)
  have hall : ∀ i : Fin 16, ctx.s.get i = ctx'.s.get i := by
    intro i
    cases i using Fin.cases with
    | zero => exact hzero
    | succ i => exact hupper i
  refine Vector.ext ?_
  intro i hi
  exact hall ⟨i, hi⟩

/-- Two states go to one state when their cells are the same and so are the entries at the bytes that the boxes read. -/
theorem keystreamWord_eq_iff {ctx ctx' : Zuc256Ctx} (h : ctx.Cells) (h' : ctx'.Cells) :
    (zuc256KeystreamWord ctx).2 = (zuc256KeystreamWord ctx').2 ↔
      ctx.s = ctx'.s ∧ PyZuc.SameEntries (boxWords ctx).1.toNat (boxWords ctx').1.toNat ∧
        PyZuc.SameEntries (boxWords ctx).2.toNat (boxWords ctx').2.toNat := by
  rw [← sFunc_eq_iff, ← sFunc_eq_iff, ← keystreamWord_R1, ← keystreamWord_R1, ← keystreamWord_R2, ← keystreamWord_R2]
  constructor
  · intro heq
    refine ⟨cells_eq_of_shift h h' ?_, congrArg Zuc256Ctx.R1 heq, congrArg Zuc256Ctx.R2 heq⟩
    rw [← keystreamWord_s, heq, keystreamWord_s]
  · rintro ⟨hs, hR1, hR2⟩
    have hcells : (zuc256KeystreamWord ctx).2.s = (zuc256KeystreamWord ctx').2.s := by
      rw [keystreamWord_s, keystreamWord_s, hs]
    exact Zuc256Ctx.ext hcells hR1 hR2

/-- Two different states that the boxes do not tell apart: their cells are the same, and so are the entries of all the bytes that are read. -/
structure Confused (ctx ctx' : Zuc256Ctx) : Prop where
  ne : ctx ≠ ctx'
  cells : ctx.s = ctx'.s
  entries : PyZuc.SameEntries (boxWords ctx).1.toNat (boxWords ctx').1.toNat
  entries' : PyZuc.SameEntries (boxWords ctx).2.toNat (boxWords ctx').2.toNat

/-- Theorem 37 (step). Two different states go to different states if and only if the boxes tell them apart. -/
theorem keystreamWord_ne_iff {ctx ctx' : Zuc256Ctx} (h : ctx.Cells) (h' : ctx'.Cells) :
    (ctx ≠ ctx' → (zuc256KeystreamWord ctx).2 ≠ (zuc256KeystreamWord ctx').2) ↔ ¬Confused ctx ctx' := by
  constructor
  · rintro hkeeps ⟨hne, hcells, hentries, hentries'⟩
    exact hkeeps hne ((keystreamWord_eq_iff h h').mpr ⟨hcells, hentries, hentries'⟩)
  · intro hapart hne heq
    obtain ⟨hcells, hentries, hentries'⟩ := (keystreamWord_eq_iff h h').mp heq
    exact hapart ⟨hne, hcells, hentries, hentries'⟩

/-- States with all cells one. -/
def ones (R1 R2 : UInt32) : Zuc256Ctx := ⟨Vector.replicate 16 1, R1, R2⟩

theorem ones_cells (R1 R2 : UInt32) : (ones R1 R2).Cells := by
  intro i
  have hone : (ones R1 R2).s.get i = 1 := Vector.getElem_replicate _
  rw [hone]
  exact ⟨by decide, by decide⟩

/-- With the registers 0 and 1 the boxes read other entries than with zeros. -/
theorem keystreamWord_ne_iff_ones : (zuc256KeystreamWord (ones 0 0)).2 ≠ (zuc256KeystreamWord (ones 0 1)).2 := by
  refine (keystreamWord_ne_iff (ones_cells 0 0) (ones_cells 0 1)).mpr ?_ (by decide +kernel)
  rintro ⟨-, -, -, hentries⟩
  exact absurd hentries.b0 (by decide +kernel)

/-- The table `s0` has the entry `0xFB` at `0xE2` and at `0xE3`. -/
theorem states_merge : ¬∀ ctx ctx' : Zuc256Ctx, ctx.Cells → ctx'.Cells → ctx ≠ ctx' →
    (zuc256KeystreamWord ctx).2 ≠ (zuc256KeystreamWord ctx').2 := by
  intro h
  exact h (ones 0xFFFF7259 0xDC4E0000) (ones 0xFFFF6718 0x991F0000) (ones_cells _ _) (ones_cells _ _) (by decide +kernel)
    (by decide +kernel)

end CZuc

end AuthVideo
