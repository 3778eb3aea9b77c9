import Bauth.Routes.MagicLink
import Bauth.Routes.OAuth
import Bauth.Queries.EmailChanges
import Bauth.Queries.Confirmations

/-!
# `current_user`, `routes::me` and `routes::email_change`

The routes behind an access token, and the confirmation link of an email change.
-/

namespace Bauth

open Transaction

/-! ### `current_user` -/

/-- The user behind `Authorization: Bearer <access token>`. -/
structure CurrentUser where
  id : Uuid
  email : String
  sessionId : Uuid
  clientId : String
  deriving DecidableEq

/-- `str::strip_prefix`. -/
def stripPrefix (start value : String) : Option String :=
  if start.toList.isPrefixOf value.toList then
    some (String.ofList (value.toList.drop start.toList.length))
  else none

/-- Tolerated clock difference. -/
def leewaySeconds : ℤ := 30

def accessTokenValidation (app : App) : Validation where
  algorithm := "EdDSA"
  issuer := app.issuer
  validateAud := false
  requiredSpecClaims := ["exp", "iss", "sub"]
  leeway := leewaySeconds

/-- The checks on the token itself, before the session is looked up. -/
def authenticate (app : App) (keys : SigningKeys) (authorization : Option String) (now : Time) :
    Option AccessTokenClaims := do
  let token ← authorization.bind (stripPrefix "Bearer ")
  let header ← app.decodeHeader token
  if header.alg ≠ "EdDSA" || header.typ ≠ some "at+jwt" then none
  let key ← header.kid.bind keys.decodingKey
  app.decodeToken token key (accessTokenValidation app) now

/-- `CurrentUser::from_request_parts`. -/
def currentUser (app : App) (authorization : Option String) : Handler ApiError CurrentUser := do
  let keys ← perform (Program.inquire (S := sig) .signingKeys)
  let now ← perform Program.clock
  let some claims := authenticate app keys authorization now | throw .unauthorized
  let some session ← run (Sessions.findAuthenticated claims.sid) | throw .unauthorized
  if session.userId ≠ claims.sub then throw .unauthorized
  return {
    id := session.userId
    email := session.email
    sessionId := claims.sid
    clientId := claims.clientId }

/-! ### `routes::email_change` -/

namespace EmailChange

/-- The client's page for email change confirmation links. -/
def page (client : Client) : Except ApiError String :=
  match client.emailChangeUrl with
  | some url => .ok url
  | none => .error (.invalidRequest "email change is not enabled for this client")

/-- `POST /email-change/confirm`. -/
def confirm (app : App) (clientIp token : String) : Handler ApiError Unit := do
  checkLimit .tokenPerIp clientIp
  let tokenHash := app.hash token
  perform Program.start
  let some change ← run (EmailChanges.consume tokenHash) | throw .invalidToken
  let some user ← run (Users.findById change.userId) | throw .invalidToken
  if user.disabledAt.isSome then throw .accountDisabled
  match ← run (Users.changeEmail user.id change.fromEmail change.toEmail) with
  | .ok true => pure ()
  -- The account moved to another address since the request: this link is stale.
  | .ok false => throw .invalidToken
  -- Someone registered the new address after the request.
  | .error .uniqueViolation => throw .emailTaken
  | .error _ => throw .internal
  perform Program.finish
  sendInBackground (.emailChanged change.fromEmail change.toEmail)

end EmailChange

namespace Me

def emailChangeTtl : Time := hours 1

structure MeResponse where
  id : Uuid
  email : String
  emailVerified : Bool
  createdAt : Time
  deriving DecidableEq

/-- `GET /me`. -/
def get (app : App) (authorization : Option String) : Handler ApiError MeResponse := do
  let user ← currentUser app authorization
  let some account ← run (Users.findById user.id) | throw .unauthorized
  return {
    id := account.id
    email := account.email
    emailVerified := account.emailVerifiedAt.isSome
    createdAt := account.createdAt }

structure SessionResponse where
  id : Uuid
  clientId : String
  clientName : Option String
  createdAt : Time
  lastUsedAt : Time
  expiresAt : Time
  current : Bool
  deriving DecidableEq

/-- `GET /me/sessions`. -/
def listSessions (app : App) (authorization : Option String) :
    Handler ApiError (List SessionResponse) := do
  let user ← currentUser app authorization
  let sessions ← run (Sessions.listActiveForUser user.id)
  return sessions.map fun s =>
    { id := s.id, clientId := s.clientId, clientName := (app.client s.clientId).map Client.name
      createdAt := s.createdAt, lastUsedAt := s.lastUsedAt, expiresAt := s.expiresAt
      current := s.id = user.sessionId }

/-- `DELETE /me/sessions/{session_id}`. -/
def revokeSession (app : App) (authorization : Option String) (sessionId : Uuid) :
    Handler ApiError Unit := do
  let user ← currentUser app authorization
  if !(← perform (Sessions.revokeForUser sessionId user.id)) then throw .notFound

/-- What a code confirms. -/
inductive ConfirmationAction where
  | changeEmail
  | deleteAccount
  deriving DecidableEq, Repr

def ConfirmationAction.asStr : ConfirmationAction → String
  | changeEmail => "change_email"
  | deleteAccount => "delete_account"

/-- Reads after "Pour …" in the email. -/
def ConfirmationAction.describe : ConfirmationAction → String
  | changeEmail => "modifier l'adresse email de votre compte"
  | deleteAccount => "supprimer votre compte"

/-- `POST /me/confirmation`. -/
def requestConfirmation (app : App) (clientIp : String) (authorization : Option String)
    (action : ConfirmationAction) : Handler ApiError Unit := do
  let user ← currentUser app authorization
  checkLimit .emailPerIp clientIp
  checkLimit .emailPerAddress (app.unicode.emailKey user.email)
  let n ← perform Program.fresh
  let codeHash := app.codeHash app.confirmationKey user.sessionId n
  let expiresAt := (← perform Program.clock) + codeTtl
  runChecked (Confirmations.create app user.id user.sessionId action.asStr user.email codeHash
    expiresAt)
  sendInBackground (.confirmationCode user.email action.describe (app.plainCode n))

/-- Spends one attempt on the newest code of this session for `action`, and consumes it if
right. -/
def checkCode (app : App) (clientIp : String) (user : CurrentUser) (action : ConfirmationAction)
    (code : String) : Handler ApiError Unit := do
  checkLimit .tokenPerIp clientIp
  checkFormat code
  perform Program.start
  let some confirmation ← perform (Confirmations.findCodeCandidate user.id user.sessionId
      action.asStr maxFailuresPerCode maxFailuresPerDay)
    | throw .invalidCode
  -- The code was emailed to an address the account no longer uses.
  if confirmation.email ≠ user.email then throw .invalidCode
  if !(← verifyCode app .confirmation confirmation.id user.sessionId code
      confirmation.codeHash) then
    let _ ← runChecked (Confirmations.recordCodeFailure confirmation.id maxFailuresPerCode)
    -- The failure must be kept even though the request fails.
    perform Program.finish
    throw .invalidCode
  run (Confirmations.consumeById confirmation.id)
  perform Program.finish

/-- `POST /me/email`. -/
def changeEmail (app : App) (clientIp : String) (authorization : Option String)
    (code newEmail : String) : Handler ApiError Unit := do
  let user ← currentUser app authorization
  if !isValidEmail newEmail then throw .invalidEmail
  let newEmailKey := app.unicode.emailKey newEmail
  if newEmailKey = user.email then throw (.invalidRequest "new_email is the current address")
  -- The confirmation link opens the page of the app the change was asked from.
  let some client := app.client user.clientId | throw .invalidClient
  let page ← ExceptT.mk (pure (EmailChange.page client))
  -- Before the confirmation: a 429 must not spend the single-use code.
  checkLimit .emailPerAddress newEmailKey
  checkCode app clientIp user .changeEmail code
  -- A taken address simply gets no link; the code is spent either way.
  if (← run (Users.findByEmail app newEmail)).isNone then
    let token := app.generateToken (← perform Program.fresh)
    let expiresAt := (← perform Program.clock) + emailChangeTtl
    runChecked (EmailChanges.create app user.id user.email newEmail token.hash expiresAt)
    sendInBackground (.confirmEmailChange newEmailKey (MagicLink.linkWith page token.plain))

/-- `DELETE /me`. -/
def deleteAccount (app : App) (clientIp : String) (authorization : Option String)
    (code : String) : Handler ApiError Unit := do
  let user ← currentUser app authorization
  checkCode app clientIp user .deleteAccount code
  run (Users.delete user.id)
  sendInBackground (.accountDeleted user.email)

end Me

end Bauth
