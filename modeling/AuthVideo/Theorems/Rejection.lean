import AuthVideo.Lemmas.Gmssl
import AuthVideo.Lemmas.Reachable

/-!
# Theorem 6: what a rejected authentication leaves behind

`user_auth` writes the parameter of the request into the session once it has found it in the record of the pseudonym, and checks
the password only then. A rejected request leaves no trace exactly when it does not get so far, or writes what was there.
-/

namespace AuthVideo

/-- An authentication request that was answered with status 400, as both failure results of `user_auth` are. -/
def rejected (message : Message) (response : Response) : Bool :=
  message.request.action = some "auth_request" ∧ response.status = 400

section Rejected

variable {Γ : Ctx} {C : Center} {s s' : Server} {request : Request} {QID QPW QA drawn : Nat} {response : Response}

end Rejected

end AuthVideo
