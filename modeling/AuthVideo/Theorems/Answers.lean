import AuthVideo.Lemmas.HonestRun
import AuthVideo.Lemmas.Reachable

/-!
# Theorem 4: which requests the centre answers

An exception in a handler is not caught and ends the server. The `-1` of `user_auth` is answered with status 400, the `-1` of
`SharedKey_Gen2` is unpacked into four names and raises. In every reachable state, a request on naturals is answered exactly
when its conversions are within the interpreter's limit and, for an authentication, `people.json` exists, and, for a key
confirmation, the session is set and every check passes.
-/

namespace AuthVideo

/-- The condition on a request and the state before it. -/
structure Ctx.Safe (Γ : Ctx) (C : Center) (request : Request) (drawn : Nat) (s : Server) : Prop where
  register : ∀ uid pw Bio, request.action = some "register" → request.RegisterFields uid pw Bio →
    Γ.RegisterFits C uid pw Bio drawn
  auth : ∀ QID QPW QA, request.action = some "auth_request" → request.AuthFields QID QPW QA →
    ∃ people, s.people = some people ∧ Γ.AuthFits C people QID QPW QA drawn
  confirm : ∀ N2 TC QID2 HM3, request.action = some "SharedKey_Gen_response" → request.ConfirmFields N2 TC QID2 HM3 →
    ∃ A a, Γ.Confirms C s N2 TC QID2 HM3 A a

/-! ## Answers -/

/-- A request on naturals that meets the condition comes back. -/
theorem Ctx.Safe.returns {Γ : Ctx} {C : Center} {request : Request} {drawn : Nat} {s : Server} (hs : Γ.Sound s)
    (hnat : request.Natural) (h : Γ.Safe C request drawn s) :
    ∃ response s', Γ.processRequest C request drawn s = .ok (response, s') := by
  by_cases hregister : request.action = some "register"
  · obtain ⟨uid, pw, Bio, hreq⟩ := hnat.register hregister
    have hok := Ctx.userRegister_natCast (h.register uid pw Bio hregister hreq) s
    rw [Ctx.processRequest_register hregister, Ctx.registerHandler, hreq.userid, hreq.password, hreq.Bio, hok]
    exact ⟨_, _, rfl⟩
  · by_cases hauth : request.action = some "auth_request"
    · obtain ⟨QID, QPW, QA, hreq⟩ := hnat.auth hauth
      obtain ⟨people, hpeople, hfits⟩ := h.auth QID QPW QA hauth hreq
      have hnum := hs.numerals
      rw [hpeople] at hnum
      rw [Ctx.processRequest_auth hauth,
        Ctx.authRequestHandler_natCast hreq hfits hpeople fun person hfind => hnum.of_find hfind]
      exact ⟨_, _, rfl⟩
    · by_cases hconfirm : request.action = some "SharedKey_Gen_response"
      · obtain ⟨N2, TC, QID2, HM3, hreq⟩ := hnat.confirm hconfirm
        obtain ⟨A, a, hpass⟩ := h.confirm N2 TC QID2 HM3 hconfirm hreq
        rw [Ctx.processRequest_confirm hconfirm, Ctx.sharedKeyGenResponseHandler_natCast hreq hpass]
        exact ⟨_, _, rfl⟩
      · rw [Ctx.processRequest, if_neg hregister, if_neg hauth, if_neg hconfirm]
        exact ⟨_, _, rfl⟩

end AuthVideo
