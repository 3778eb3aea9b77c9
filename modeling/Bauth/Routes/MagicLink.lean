import Bauth.Routes.Login
import Bauth.Queries.MagicLinks
import Bauth.Queries.Users

/-!
# `routes::magic_link`

Asking for a magic link, and the two ways to use it: its token and its code.
-/

namespace Bauth

open Transaction

/-- `Limiter::check`. -/
def checkLimit (limiter : Limiter) (key : String) : Handler ApiError Unit := do
  match ← perform (Program.inquire (S := sig) (.limit limiter key)) with
  | none => return ()
  | some retryAfter => throw (.rateLimited retryAfter)

/-- `magic_code::check_format`. -/
def checkFormat (code : String) : Handler ApiError Unit :=
  if isWellFormed code then return () else throw (.invalidRequest "code must be 6 digits")

/-- `CodeKey::verify` for the code of a row. -/
def verifyCode (app : App) (purpose : CodePurpose) (row owner : Uuid) (code : String)
    (hash : Bytes) : Handler ApiError Bool := do
  perform (Program.signal (S := sig) (.codeVerified purpose row))
  let key := match purpose with
    | .magicLink => app.magicLinkKey
    | .confirmation => app.confirmationKey
  return app.verifyCode key owner code hash

def sendInBackground (email : Email) : Handler ApiError Unit :=
  perform (Program.signal (S := sig) (.sent email))

namespace MagicLink

/-- Each email brings a new code: capping them per flow caps the guesses on one flow. -/
def maxEmailsPerFlow : ℕ := 3

structure MagicLinkResponse where
  expiresAt : Time
  deriving DecidableEq

inductive Recipient where
  | account (id : Uuid)
  | signUp

/-- The link an app page opens with a token. -/
def linkWith (page token : String) : String := page ++ "#token=" ++ token

/-- `POST /flows/login/{flow_id}/magic-link`. -/
def request (app : App) (clientIp : String) (flowId : Uuid) (email : String) :
    Handler ApiError MagicLinkResponse := do
  checkLimit .emailPerIp clientIp
  if !isValidEmail email then throw .invalidEmail
  let some flow ← run (LoginFlows.findPendingMagicLinkFlow flowId) | throw .flowExpired
  let flowExhausted : Handler ApiError ApiError := do
    return .rateLimited (max 0 (flow.expiresAt - (← perform Program.clock)))
  if maxEmailsPerFlow ≤ flow.requests then throw (← flowExhausted)
  let some client := app.client flow.clientId | throw .invalidClient
  checkLimit .emailPerAddress (app.unicode.emailKey email)
  -- Counted last, so a request refused above doesn't use one of the flow's emails.
  let expiresAt := (← perform Program.clock) + codeTtl
  let some flowExpiresAt ←
    run (LoginFlows.countMagicLinkRequest flowId maxEmailsPerFlow expiresAt)
    | throw (← flowExhausted)
  let recipient : Option Recipient := match ← run (Users.findByEmail app email) with
    | some user => if user.disabledAt.isNone then some (.account user.id) else none
    | none => if client.allowSignup then some .signUp else none
  if let some recipient := recipient then
    let token := app.generateToken (← perform Program.fresh)
    let n ← perform Program.fresh
    let codeHash := app.codeHash app.magicLinkKey flowId n
    let userId := match recipient with
      | .account userId => some userId
      | .signUp => none
    let address ← runChecked
      (MagicLinks.create app flowId userId email token.hash codeHash expiresAt)
    let link := linkWith client.magicLinkUrl token.plain
    sendInBackground (match recipient with
      | .account _ => .magicLink address client.name link (app.plainCode n)
      | .signUp => .magicSignup address client.name link (app.plainCode n))
  return { expiresAt := flowExpiresAt }

/-- The account the email was sent for. A sign-up creates it, or finds it by address if it was
created meanwhile. -/
def account (app : App) (userId : Option Uuid) (email : String) :
    Handler ApiError (Option User) := do
  match userId with
  | some id => run (Users.findById id)
  | none =>
    match ← run (Users.create app email) with
    | some user => return some user
    | none => run (Users.findByEmail app email)

/-- What a checked link or code does: logs the user in on the flow the email was requested from.
`stale` is the error when the email went to an address the account no longer uses. -/
def logIn (app : App) (flowId : Uuid) (userId : Option Uuid) (email : String) (stale : ApiError) :
    Handler ApiError Login.LoginResponse := do
  let some user ← account app userId email | throw stale
  if user.disabledAt.isSome then throw .accountDisabled
  if user.email ≠ email then throw stale
  run (Users.markEmailVerified user.id user.email)
  let some response ← Login.complete app flowId user.id | throw .flowExpired
  return response

/-- `POST /magic-link/confirm`. -/
def confirm (app : App) (clientIp token : String) : Handler ApiError Login.LoginResponse := do
  checkLimit .tokenPerIp clientIp
  let tokenHash := app.hash token
  perform Program.start
  let some link ← run (MagicLinks.consume tokenHash) | throw .invalidToken
  let response ← logIn app link.flowId link.userId link.email .invalidToken
  perform Program.finish
  return response

/-- `POST /flows/login/{flow_id}/magic-code`. -/
def confirmCode (app : App) (clientIp : String) (flowId : Uuid) (code : String) :
    Handler ApiError Login.LoginResponse := do
  checkLimit .tokenPerIp clientIp
  checkFormat code
  perform Program.start
  let some link ←
    perform (MagicLinks.findCodeCandidate flowId maxFailuresPerCode maxFailuresPerDay)
    | throw .invalidCode
  if !(← verifyCode app .magicLink link.id flowId code link.codeHash) then
    let _ ← runChecked (MagicLinks.recordCodeFailure link.id maxFailuresPerCode)
    -- The failure must be kept even though the request fails.
    perform Program.finish
    throw .invalidCode
  run (MagicLinks.consumeById link.id)
  let response ← logIn app flowId link.userId link.email .invalidCode
  perform Program.finish
  return response

end MagicLink

end Bauth
