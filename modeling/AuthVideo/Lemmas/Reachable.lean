import Mathlib.Logic.Relation
import AuthVideo.Lemmas.Returns

/-!
# The states of the centre

What the centre gets into from start-up, by requests whose fields are naturals, and the invariant of these states.
-/

namespace AuthVideo

/-- The fields that the action of a request is about are naturals. -/
structure Request.Natural (request : Request) : Prop where
  register : request.action = some "register" → ∃ uid pw Bio, request.RegisterFields uid pw Bio
  auth : request.action = some "auth_request" → ∃ QID QPW QA, request.AuthFields QID QPW QA
  confirm : request.action = some "SharedKey_Gen_response" → ∃ N2 TC QID2 HM3, request.ConfirmFields N2 TC QID2 HM3

/-- One request on naturals that is answered. -/
def Ctx.Step (Γ : Ctx) (C : Center) (s s' : Server) : Prop :=
  ∃ (request : Request) (drawn : Nat) (response : Response),
    request.Natural ∧ Γ.processRequest C request drawn s = .ok (response, s')

/-- The centre gets into a state from start-up, where `people.json` is missing or was left by an earlier run. -/
def Ctx.Reachable (Γ : Ctx) (C : Center) (s : Server) : Prop :=
  ∃ people, Γ.Numerals people ∧ Relation.ReflTransGen (Γ.Step C) (Server.start people) s

/-! ## The invariant of the reachable states -/

/-- The store holds numerals, and the session holds naturals. -/
structure Ctx.Sound (Γ : Ctx) (s : Server) : Prop where
  numerals : Γ.Numerals s.people
  A : ∀ z, s.A = some z → 0 ≤ z
  a : ∀ z, s.a = some z → 0 ≤ z

/-- One answered request keeps the invariant. -/
theorem Ctx.Sound.step {Γ : Ctx} {C : Center} {s s' : Server} (hs : Γ.Sound s) (h : Γ.Step C s s') : Γ.Sound s' := by
  obtain ⟨request, drawn, response, hnat, hok⟩ := h
  have hrecover : ∀ qa : Int, request.action = some "auth_request" → request.get "QA" = some qa →
      0 ≤ chebyshevMatrix C.e qa C.N := by
    intro qa hact hqa
    obtain ⟨QID, QPW, QA, hreq⟩ := hnat.auth hact
    obtain rfl : (QA : Int) = qa := Option.some.inj (hreq.QA.symm.trans hqa)
    rw [Center.chebyshevMatrix_e]
    exact Int.natCast_nonneg _
  cases Ctx.processRequest_answered hok with
  | registered reg person hact hA hAuth =>
    refine ⟨?_, hs.A, hs.a⟩
    intro p hp
    rcases List.mem_append.mp hp with hold | hnew
    · exact hs.numerals p hold
    · rw [List.mem_singleton.mp hnew]
      exact ⟨hA, hAuth⟩
  | refused message A hact hA =>
    refine ⟨hs.numerals, ?_, hs.a⟩
    intro z hz
    rcases hA with rfl | ⟨qa, hqa, rfl⟩
    · exact hs.A z hz
    · cases hz
      exact hrecover qa hact hqa
  | admitted QID QA HM2 hact hQID hQA =>
    refine ⟨hs.numerals, ?_, ?_⟩
    · intro z hz
      cases hz
      exact hrecover QA hact hQA
    · intro z hz
      cases hz
      exact Int.natCast_nonneg _
  | confirmed => exact hs
  | unknown => exact hs

/-- Every reachable state has the invariant. -/
theorem Ctx.Reachable.sound {Γ : Ctx} {C : Center} {s : Server} (h : Γ.Reachable C s) : Γ.Sound s := by
  obtain ⟨people, hpeople, hrun⟩ := h
  induction hrun with
  | refl => exact ⟨hpeople, nofun, nofun⟩
  | tail _ hstep ih => exact ih.step hstep

end AuthVideo
