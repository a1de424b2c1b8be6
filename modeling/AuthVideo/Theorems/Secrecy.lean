import AuthVideo.Observer
import AuthVideo.Lemmas.HonestRun

/-!
# Theorem 3: the observer computes the key

`QID` crosses the wire twice, bare in the authentication request and as `QID ^ TTG` in the answer, so the mask `TTG` is the
exclusive or of two fields. The same mask covers both nonces, and the key is the hash of the nonces and the mask.
-/

namespace AuthVideo

/-- A term gives the key of every honest run of a centre. -/
def Ctx.Recovers (Γ : Ctx) (C : Center) (t : Term) : Prop :=
  ∀ (uid pw Bio L a b : Nat) (server : Server) (user : User) (out : Outcome),
    Γ.Honest C server.people uid pw Bio L →
      Γ.sendRequest C (honestRounds uid pw Bio L a b) (registerRequest uid pw Bio) server user = .ok out →
        ∃ KS, out.KS = some KS ∧ Γ.eval C.publicParams out.transcript t = .ok KS

/-- The key of the honest runs of a centre is no fixed function of what an observer sees. -/
def Ctx.KeySecret (Γ : Ctx) (C : Center) : Prop := ∀ t : Term, ¬Γ.Recovers C t

section Observer

variable {Γ : Ctx} {C : Center} {k uid pw Bio L a b : Nat}

/-- The exclusive or of two terms with natural values. -/
theorem Ctx.eval_xor {pub : PublicParams} {transcript : List (Request × Response)} {s t : Term} {m n : Nat}
    (hs : Γ.eval pub transcript s = .ok (m : Int)) (ht : Γ.eval pub transcript t = .ok (n : Int)) :
    Γ.eval pub transcript (.xor s t) = .ok ((m ^^^ n : Nat) : Int) := by
  simp only [Ctx.eval, hs, ht, ok_bind, Mask.xor_natCast]
  rfl

/-- The concatenation of two terms with natural values. -/
theorem Ctx.eval_cat {pub : PublicParams} {transcript : List (Request × Response)} {s t : Term} {m n : Nat}
    (hfits : ∀ ns, Γ.Fits ns) (hs : Γ.eval pub transcript s = .ok (m : Int))
    (ht : Γ.eval pub transcript t = .ok (n : Int)) :
    Γ.eval pub transcript (.cat s t) = .ok (Decimal.concat [m, n] : Nat) := by
  have hcat := (Ctx.cat_fields Γ [m, n] (by simp)).trans (if_pos (hfits _))
  simp only [Ctx.eval, hs, ht, ok_bind]
  exact hcat

variable (Γ C k uid pw Bio L a b) in
/-- The mask of an honest run. -/
theorem Ctx.eval_mask :
    Γ.eval C.publicParams (Γ.honestTranscript C k uid pw Bio L a b) .mask =
      .ok (C.mask (Γ.parameter uid pw Bio L) : Int) := by
  have hQID : Γ.eval C.publicParams (Γ.honestTranscript C k uid pw Bio L a b) (.wire .QID) =
      .ok (C.sent k (Γ.pseudonym uid L Bio) : Int) := rfl
  have h := Ctx.eval_xor (s := .wire .QID1)
    (m := C.sent k (Γ.pseudonym uid L Bio) ^^^ C.mask (Γ.parameter uid pw Bio L)) rfl hQID
  rw [Mask.natXor_cancel_middle] at h
  exact h

/-- The key of an honest run. -/
theorem Ctx.eval_key (hfits : ∀ ns, Γ.Fits ns) :
    Γ.eval C.publicParams (Γ.honestTranscript C k uid pw Bio L a b) .key =
      .ok (Γ.sharedKey C (Γ.parameter uid pw Bio L) a b : Int) := by
  have hmask := Ctx.eval_mask Γ C k uid pw Bio L a b
  have ha := Ctx.eval_xor (s := .wire .N1) (m := C.mask (Γ.parameter uid pw Bio L) ^^^ a) rfl hmask
  have hb := Ctx.eval_xor (s := .wire .N2) (m := C.mask (Γ.parameter uid pw Bio L) ^^^ b) rfl hmask
  rw [Mask.natXor_cancel_middle] at ha hb
  have hcat := Ctx.eval_cat hfits (Ctx.eval_cat hfits ha hb) hmask
  rw [Decimal.concat_concat] at hcat
  have hhash := Ctx.sm3Hash_concat (Γ := Γ) [a, b, C.mask (Γ.parameter uid pw Bio L)] (by simp) (hfits _)
  change (Γ.eval _ _ _ >>= fun m => Γ.sm3Hash m) = _
  rw [hcat, ok_bind]
  exact hhash

/-- The observer's term gives the key of every honest run. -/
theorem Ctx.recovers_key (Γ : Ctx) (C : Center) : Γ.Recovers C .key := by
  intro uid pw Bio L a b server user out h hrun
  obtain ⟨k, out', -, hrun', htranscript, -, hKS⟩ := h.run a b user
  obtain rfl : out' = out := Except.ok.inj (hrun'.symm.trans hrun)
  refine ⟨_, hKS, ?_⟩
  rw [htranscript]
  exact Ctx.eval_key (Ctx.fits_of_noLimit h.noLimit)

end Observer

/-- Theorem 3 (no secrecy). At no centre and for no hash is the key of the honest runs secret from a passive observer. -/
theorem key_not_secret (Γ : Ctx) (C : Center) : ¬Γ.KeySecret C := fun h => h .key (Γ.recovers_key C)

/-- One term serves every centre and every hash, and there are honest runs for it to be wrong about. -/
theorem key_not_secret_uniform :
    (∃ t : Term, ∀ (Γ : Ctx) (C : Center), Γ.Recovers C t) ∧
      ∃ (Γ : Ctx) (C : Center), Γ.Honest C (Server.start none).people 1 2 3 4 :=
  ⟨⟨.key, Ctx.recovers_key⟩, sampleCtx, sampleCenter, sampleHonest⟩

end AuthVideo
