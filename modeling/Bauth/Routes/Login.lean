import Bauth.Queries.LoginFlows
import Bauth.Queries.AuthorizationCodes

/-!
# `routes::login` and `login_flow`

Starting a login flow, and completing it whatever the login method.
-/

namespace Bauth

open Transaction

namespace Login

def flowTtl : Time := minutes 15

def maxStateLen : ℕ := 512

structure CreateFlowRequest where
  clientId : String
  redirectUri : String
  codeChallenge : String
  codeChallengeMethod : String
  state : Option String
  deriving DecidableEq

structure FlowResponse where
  flowId : Uuid
  expiresAt : Time
  deriving DecidableEq

/-- `POST /flows/login`. -/
def createFlow (app : App) (input : CreateFlowRequest) : Handler ApiError FlowResponse := do
  let some client := app.client input.clientId | throw .invalidClient
  -- Never redirect anywhere before this check passes.
  if !client.allowsRedirectUri input.redirectUri then throw .invalidRedirectUri
  if input.codeChallengeMethod ≠ "S256" || !isValidChallenge input.codeChallenge then
    throw .invalidCodeChallenge
  if input.state.any fun s => maxStateLen < utf8Len s.toList then
    throw (.invalidRequest "state must be at most 512 bytes")
  let expiresAt := (← perform Program.clock) + flowTtl
  let flowId ← run (LoginFlows.create app client.id input.redirectUri input.codeChallenge
    input.state expiresAt)
  return { flowId, expiresAt }

/-- `login_flow::CODE_TTL`. -/
def authorizationCodeTtl : Time := seconds 60

/-- What a login method returns once the user is authenticated. -/
structure LoginResponse where
  code : String
  deriving DecidableEq

/-- `login_flow::complete`: marks the flow completed and issues its authorization code. `none` if
the flow expired or was completed concurrently. -/
def complete (app : App) (flowId userId : Uuid) : Handler ApiError (Option LoginResponse) := do
  if !(← run (LoginFlows.complete flowId)) then return none
  let code := app.generateToken (← perform Program.fresh)
  let expiresAt := (← perform Program.clock) + authorizationCodeTtl
  runChecked (AuthorizationCodes.create app code.hash flowId userId expiresAt)
  return some { code := code.plain }

end Login

end Bauth
