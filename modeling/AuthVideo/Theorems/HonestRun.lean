import AuthVideo.Lemmas.HonestRun

/-!
# Theorem 2: an honest run ends in agreement

The device and the centre exchange the three requests in order, unmodified. Every answer has status 200, every check of the
device passes, and both sides hold the same key.
-/

namespace AuthVideo

/-- An exchange that went through: the three requests in order, each answered with status 200, the five checks of the device
passed, and one key on both sides. -/
def Outcome.Agrees (out : Outcome) : Prop :=
  out.transcript.map (fun message => message.1.action) =
      [some "register", some "auth_request", some "SharedKey_Gen_response"] ∧
    (∀ message ∈ out.transcript, message.2.status = 200) ∧
    out.verdicts = [(.selfAuth, true), (.tagHM2, true), (.pseudonym, true), (.tagHM5, true), (.nonce, true)] ∧
    ∃ KS, out.KS = some KS ∧ out.serverKey = some KS

/-- Theorem 2 (honest-run agreement). Whatever both sides held before, an honest run ends in agreement. -/
theorem honest_run_agrees {Γ : Ctx} {C : Center} {uid pw Bio L : Nat} {server : Server}
    (h : Γ.Honest C server.people uid pw Bio L) (a b : Nat) (user : User) :
    ∃ out, Γ.sendRequest C (honestRounds uid pw Bio L a b) (registerRequest uid pw Bio) server user = .ok out ∧
      out.Agrees := by
  obtain ⟨k, out, -, hrun, htranscript, hverdicts, hKS⟩ := h.run a b user
  refine ⟨out, hrun, ?_, ?_, hverdicts, _, hKS, ?_⟩
  · rw [htranscript]
    rfl
  · rw [htranscript]
    intro message hmessage
    simp only [Ctx.honestTranscript, List.mem_cons, List.not_mem_nil, or_false] at hmessage
    rcases hmessage with rfl | rfl | rfl <;> rfl
  · rw [Outcome.serverKey, htranscript]
    rfl

/-- The first device of the sample centre. -/
theorem honest_run_agrees_sample :
    ∃ out, sampleCtx.sendRequest sampleCenter (honestRounds 1 2 3 4 5 6) (registerRequest 1 2 3) (Server.start none)
      User.init = .ok out ∧ out.Agrees :=
  honest_run_agrees sampleHonest 5 6 User.init

end AuthVideo
