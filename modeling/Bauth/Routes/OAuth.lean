import Bauth.Queries.Users
import Bauth.Queries.AuthorizationCodes
import Bauth.Queries.Sessions
import Bauth.Queries.RefreshTokens

/-!
# `routes::oauth`, `sessions` and `access_token`

The token endpoint with its two grants, and logout.
-/

namespace Bauth

open Transaction

/-! ### `access_token` -/

def accessTokenTtl : Time := minutes 15

/-- `DateTime::timestamp`: whole seconds. -/
def timestamp (t : Time) : ℤ := t / 1000000

structure IssuedAccessToken where
  token : String
  expiresIn : ℤ
  deriving DecidableEq

/-- `access_token::issue`. `none` when no signing key is active. -/
def issue (app : App) (keys : SigningKeys) (userId sessionId : Uuid) (client : Client)
    (now : Time) : Program sig (Option IssuedAccessToken) := do
  let some key := keys.signingKey now | return none
  let jti := app.uuid (← Program.fresh)
  let claims : AccessTokenClaims :=
    { iss := app.issuer, sub := userId, aud := client.audienceName, clientId := client.id
      sid := sessionId, iat := timestamp now, exp := timestamp (now + accessTokenTtl), jti }
  let header : TokenHeader :=
    { alg := "EdDSA", typ := some "at+jwt", kid := some (app.showUuid key.kid) }
  return some
    { token := app.encodeToken header claims key.encodingKey
      expiresIn := accessTokenTtl / seconds 1 }

/-! ### `sessions` -/

/-- How long a login lasts before the user must log in again by email. -/
def sessionTtl : Time := days 30

/-- A rotated refresh token still works this long without invalidating the tokens issued
from it. -/
def refreshReuseGrace : Time := seconds 30

/-- `sessions::new_refresh_token`. -/
def newRefreshToken (app : App) (sessionId : Uuid) (parentId : Option Uuid) :
    Handler OAuthError String := do
  let refreshToken := app.generateToken (← perform Program.fresh)
  runChecked (RefreshTokens.create app sessionId refreshToken.hash parentId)
  return refreshToken.plain

structure OpenedSession where
  sessionId : Uuid
  refreshToken : String
  deriving DecidableEq

/-- `sessions::open`. -/
def openSession (app : App) (userId : Uuid) (clientId : String) (authorizationCodeId : Uuid) :
    Handler OAuthError OpenedSession := do
  let expiresAt := (← perform Program.clock) + sessionTtl
  let sessionId ← runChecked (Sessions.create app userId clientId authorizationCodeId expiresAt)
  let refreshToken ← newRefreshToken app sessionId none
  return { sessionId, refreshToken }

namespace OAuth

structure TokenRequest where
  grantType : String
  clientId : String
  code : Option String := none
  redirectUri : Option String := none
  codeVerifier : Option String := none
  refreshToken : Option String := none
  deriving DecidableEq

structure TokenResponse where
  accessToken : String
  expiresIn : ℤ
  refreshToken : String
  deriving DecidableEq

def required (value : Option String) (name : String) : Handler OAuthError String :=
  match value with
  | some value => return value
  | none => throw (.invalidRequest ("missing `" ++ name ++ "`"))

/-- The code can't be exchanged. If it was already used, someone replayed it: revoke the session
it opened. -/
def rejectUnusableCode (codeHash : Bytes) : Handler OAuthError OAuthError := do
  if let some codeId ← run (AuthorizationCodes.findConsumed codeHash) then
    let _ ← perform (Sessions.revokeByAuthorizationCode codeId)
  return .invalidGrant "code is invalid, expired or already used"

def authorizationCode (app : App) (input : TokenRequest) : Handler OAuthError TokenResponse := do
  let code ← required input.code "code"
  let redirectUri ← required input.redirectUri "redirect_uri"
  let codeVerifier ← required input.codeVerifier "code_verifier"
  let some client := app.client input.clientId | throw .invalidClient
  let codeHash := app.hash code
  perform Program.start
  let some consumed ← run (AuthorizationCodes.consume codeHash)
    | do
      perform Program.abandon
      throw (← rejectUnusableCode codeHash)
  -- Any mismatch rolls back: the code stays usable by the legitimate app until it expires.
  if consumed.clientId ≠ client.id then
    throw (.invalidGrant "code was issued to another client")
  if consumed.redirectUri ≠ redirectUri then
    throw (.invalidGrant "redirect_uri does not match")
  if !app.pkceVerify codeVerifier consumed.codeChallenge then
    throw (.invalidGrant "code_verifier does not match")
  let user ← run (Users.findById consumed.userId)
  if user.all fun user => user.disabledAt.isSome then
    throw (.invalidGrant "account is disabled")
  let session ← openSession app consumed.userId client.id consumed.id
  let keys ← perform (Program.inquire (S := sig) .signingKeys)
  let now ← perform Program.clock
  let some access ← perform (issue app keys consumed.userId session.sessionId client now)
    | throw .serverError
  perform Program.finish
  return {
    accessToken := access.token
    expiresIn := access.expiresIn
    refreshToken := session.refreshToken }

/-- The four-way decision on a presented refresh token: is it a stolen copy? -/
def isStolen (current : RefreshTokens.RefreshTokenWithSession) (now : Time) :
    Program sig Bool := do
  match current.supersededAt, current.rotatedAt with
  -- Replaced by a retry of its parent: the retry came from a copy of the parent.
  | some _, _ => return true
  | none, none =>
    Program.query (RefreshTokens.markRotated current.id)
    return false
  | none, some rotatedAt =>
    -- Two tabs refreshed with the same token at the same time: let the second one through.
    if now - rotatedAt ≤ refreshReuseGrace then return false
    -- A retry after a lost response is fine as long as the app never used what we sent.
    let stolen ← Program.query (RefreshTokens.hasUsedSuccessor current.id)
    if !stolen then RefreshTokens.supersedeUnusedSuccessors current.id
    return stolen

def refreshToken (app : App) (input : TokenRequest) : Handler OAuthError TokenResponse := do
  let refreshToken ← required input.refreshToken "refresh_token"
  let some client := app.client input.clientId | throw .invalidClient
  let tokenHash := app.hash refreshToken
  let now ← perform Program.clock
  perform Program.start
  let some current ← perform (RefreshTokens.findForUpdate tokenHash)
    | throw (.invalidGrant "refresh token is invalid")
  if current.clientId ≠ client.id then
    throw (.invalidGrant "refresh token was issued to another client")
  if current.sessionRevokedAt.isSome || current.sessionExpiresAt ≤ now then
    throw (.invalidGrant "session is expired or revoked")
  if ← perform (isStolen current now) then
    -- Two parties hold tokens of this session: kill the whole session.
    perform (Sessions.revoke current.sessionId)
    perform Program.finish
    throw (.invalidGrant "refresh token was already used")
  let user ← run (Users.findById current.userId)
  if user.all fun user => user.disabledAt.isSome then
    perform (Sessions.revoke current.sessionId)
    perform Program.finish
    throw (.invalidGrant "account is disabled")
  let newRefreshToken ← newRefreshToken app current.sessionId (some current.id)
  let keys ← perform (Program.inquire (S := sig) .signingKeys)
  let some access ← perform (issue app keys current.userId current.sessionId client now)
    | throw .serverError
  perform Program.finish
  return {
    accessToken := access.token
    expiresIn := access.expiresIn
    refreshToken := newRefreshToken }

/-- `POST /oauth/token`. -/
def token (app : App) (input : TokenRequest) : Handler OAuthError TokenResponse :=
  if input.grantType = "authorization_code" then authorizationCode app input
  else if input.grantType = "refresh_token" then refreshToken app input
  else throw .unsupportedGrantType

structure RevokeRequest where
  token : String
  clientId : String
  deriving DecidableEq

/-- `POST /oauth/revoke`: revokes the session behind a refresh token. -/
def revoke (app : App) (input : RevokeRequest) : Handler OAuthError Unit := do
  let some client := app.client input.clientId | throw .invalidClient
  let tokenHash := app.hash input.token
  let _ ← perform (Sessions.revokeByRefreshToken tokenHash client.id)

end OAuth

end Bauth
