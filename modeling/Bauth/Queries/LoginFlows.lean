import Bauth.Model.Schema

/-!
# `queries::login_flows`
-/

namespace Bauth

open Transaction

namespace LoginFlow

/-- `completed_at IS NULL AND expires_at > now()`. -/
def pending (f : LoginFlow) (now : Time) : Bool := f.completedAt.isNone && now < f.expiresAt

end LoginFlow

namespace LoginFlows

def create (app : App) (clientId redirectUri codeChallenge : String) (state : Option String)
    (expiresAt : Time) : Statement sig Uuid where
  label := .loginFlowsCreate
  locks _ _ := []
  run now n _ :=
    let row : LoginFlow :=
      { id := app.uuid n, clientId, redirectUri, codeChallenge, state, magicLinkRequests := 0
        expiresAt, completedAt := none, createdAt := now }
    (fun d => { d with loginFlows := d.loginFlows ++ [row] }, app.uuid n)

/-- Atomically marks the flow completed. `false` if it expired or was completed concurrently. -/
def complete (id : Uuid) : Statement sig Bool :=
  update .loginFlowsComplete .loginFlows (fun now _ f => f.id = id && f.pending now)
    (fun now f => { f with completedAt := some now }) fun _ hit => hit.length = 1

structure PendingMagicLinkFlow where
  clientId : String
  requests : ℕ
  expiresAt : Time
  deriving DecidableEq

def findPendingMagicLinkFlow (id : Uuid) : Statement sig (Option PendingMagicLinkFlow) :=
  .select .loginFlowsFindPendingMagicLinkFlow fun now (d : Database) =>
    (d.loginFlows.find? fun f => f.id = id && f.pending now).map fun f =>
      { clientId := f.clientId, requests := f.magicLinkRequests, expiresAt := f.expiresAt }

/-- Counts a magic link request if the flow is still pending and under `max` requests, and keeps
the flow alive until `linkExpiresAt`. Returns the flow's new expiry. -/
def countMagicLinkRequest (id : Uuid) (max : ℕ) (linkExpiresAt : Time) :
    Statement sig (Option Time) :=
  update .loginFlowsCountMagicLinkRequest .loginFlows
    (fun now _ f => f.id = id && f.pending now && f.magicLinkRequests < max)
    (fun _ f => { f with
      magicLinkRequests := f.magicLinkRequests + 1
      expiresAt := Max.max f.expiresAt linkExpiresAt })
    fun _ hit => hit.head?.map fun f => Max.max f.expiresAt linkExpiresAt

end LoginFlows

end Bauth
