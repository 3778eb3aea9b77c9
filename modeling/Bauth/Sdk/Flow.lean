import Bauth.Server
import Bauth.Sdk.Session

/-!
# Logging in with `createBauthClient`

`requestMagicCode`, `submitMagicCode` and `submitMagicLink` of the SDK against the server: the
login in progress is kept in a store, with the verifier that its code is exchanged with.
-/

namespace Bauth

open Transaction Transition

namespace Sdk

namespace Flow

/-- What `requestMagicCode` keeps. -/
structure PendingMagicCode where
  flowId : Uuid
  codeVerifier : String
  email : String
  expiresAt : Time
  deriving DecidableEq, Repr

/-- The options of a client, the address bauth sees it at, and the 32 random bytes of each
verifier it draws. -/
structure Browser where
  clientId : String
  redirectUri : String
  clientIp : String
  random : ℕ → Bytes
  random_length : ∀ n, (random n).length = 32

/-- What a call may await: the store, `Date.now()`, random bytes, and a request to bauth. -/
inductive Op where
  | read
  | write (value : Option PendingMagicCode)
  | now
  | randomValues
  | call (request : Request)

def Op.Answer : Op → Type
  | read => Option PendingMagicCode
  | write _ => Unit
  | now => ℤ
  | randomValues => Bytes
  | call _ => Body

abbrev awaits : Awaits := ⟨Op, Op.Answer, Error⟩

def readStore : Async awaits (Option PendingMagicCode) := .perform (A := awaits) .read

def writeStore (value : Option PendingMagicCode) : Async awaits Unit :=
  .perform (A := awaits) (.write value)

def dateNow : Async awaits ℤ := .perform (A := awaits) .now

def call (request : Request) : Async awaits Body := .perform (A := awaits) (.call request)

def throwCode {α : Type} (code : String) : Async awaits α := .done (.error (.bauth code))

/-- `generateCodeVerifier`. -/
def generateCodeVerifier : Async awaits String := do
  let bytes ← (.perform (A := awaits) .randomValues : Async awaits Bytes)
  return String.ofList (base64Url bytes)

/-- `Date.parse`, of a time bauth answered: in milliseconds. -/
def dateParse (t : Time) : ℤ := t / 1000

section Calls

variable (app : App) (b : Browser)

def exchangeCode (code codeVerifier : String) : Async awaits OAuth.TokenResponse := do
  let body ← call (.token {
    grantType := "authorization_code", clientId := b.clientId, code := some code
    redirectUri := some b.redirectUri, codeVerifier := some codeVerifier })
  match body with
  | .tokens tokens => return tokens
  | _ => throwCode "unexpected_response"

structure LoginFlow where
  flowId : Uuid
  expiresAt : Time
  codeVerifier : String

def startLogin (state : Option String) : Async awaits LoginFlow := do
  let codeVerifier ← generateCodeVerifier
  let body ← call (.createFlow {
    clientId := b.clientId, redirectUri := b.redirectUri
    codeChallenge := app.challengeOf codeVerifier, codeChallengeMethod := "S256", state })
  match body with
  | .flow flow => return { flowId := flow.flowId, expiresAt := flow.expiresAt, codeVerifier }
  | _ => throwCode "unexpected_response"

def requestMagicLink (flowId : Uuid) (email : String) : Async awaits Time := do
  match ← call (.requestMagicLink b.clientIp flowId email) with
  | .magicLinkSent sent => return sent.expiresAt
  | _ => throwCode "unexpected_response"

def confirmMagicLink (token : String) : Async awaits String := do
  match ← call (.confirmMagicLink b.clientIp token) with
  | .loggedIn response => return response.code
  | _ => throwCode "unexpected_response"

def confirmMagicCode (flowId : Uuid) (code : String) : Async awaits String := do
  match ← call (.confirmMagicCode b.clientIp flowId code) with
  | .loggedIn response => return response.code
  | _ => throwCode "unexpected_response"

/-- The flow in the store, if it is for this address and not expired. -/
def liveFlow (email : String) : Async awaits (Option PendingMagicCode) := do
  match ← readStore with
  | none => return none
  | some pending =>
    if pending.email ≠ email then return none
    return if (← dateNow) < dateParse pending.expiresAt then some pending else none

/-- A flow of its own for the address. -/
def requestOnNewFlow (email : String) : Async awaits Unit := do
  let flow ← startLogin app b none
  let expiresAt ← requestMagicLink b flow.flowId email
  writeStore (some { flowId := flow.flowId, codeVerifier := flow.codeVerifier, email, expiresAt })

/-- bauth refuses more emails on the flow, or forgot it. -/
def isExhausted : Error → Bool
  | .bauth code => code = "rate_limited" || code = "flow_expired"
  | .other => false

def requestMagicCode (email : String) : Async awaits Unit := do
  match ← liveFlow email with
  | none => requestOnNewFlow app b email
  | some pending =>
    let sent := do
      let expiresAt ← requestMagicLink b pending.flowId email
      writeStore (some { pending with expiresAt })
    sent.catching fun error =>
      if isExhausted error then requestOnNewFlow app b email else .done (.error error)

def submitMagicCode (code : String) : Async awaits OAuth.TokenResponse := do
  match ← readStore with
  | none => throwCode "flow_expired"
  | some pending =>
    let digits := String.ofList (code.toList.filter Char.isDigit)
    let authorizationCode ← confirmMagicCode b pending.flowId digits
    let tokens ← exchangeCode b authorizationCode pending.codeVerifier
    writeStore none
    return tokens

/-- `token` is that of the link, `none` where it has no `#token=`. -/
def submitMagicLink (token : Option String) : Async awaits OAuth.TokenResponse := do
  match truthy token with
  | none => throwCode "invalid_token"
  | some token =>
    match ← readStore with
    | none => throwCode "flow_expired"
    | some pending =>
      let authorizationCode ← confirmMagicLink b token
      let tokens ← exchangeCode b authorizationCode pending.codeVerifier
      writeStore none
      return tokens

end Calls

/-! ### The browser, the network and bauth -/

/-- A request that does not arrive, or its answer. -/
inductive Fault where
  | request
  | response
  deriving DecidableEq

/-- What happens outside the client at its `n`-th request, and the time `Date.now()` answers
before it. -/
structure Net where
  reply : ℕ → (q : Question) → Reply q
  delay : ℕ → ℕ
  fault : ℕ → Option Fault
  dateNow : ℕ → ℤ

/-- The store, bauth, when the last request was made, and how many verifiers were drawn and
requests were made. -/
structure World where
  store : Option PendingMagicCode
  server : Server
  clock : Time
  drawn : ℕ
  calls : ℕ

def Failure.toError : Failure → Error
  | .api error => .bauth error.code
  | .oauth error => .bauth error.error

variable (app : App) (b : Browser) (net : Net)

/-- When the next request arrives. -/
def World.next (w : World) : Time := w.clock + net.delay w.calls

/-- The next request, as bauth serves it. -/
def World.serve (w : World) (request : Request) : Served :=
  Bauth.serve app (w.next net) (net.reply w.calls) request w.server

/-- A request was made. -/
def World.called (w : World) (server : Server) : World :=
  { w with server, clock := w.next net, calls := w.calls + 1 }

/-- What each operation answers in a world, and the world it leaves. -/
def answer (w : World) : (op : Op) → Except Error op.Answer × World
  | .read => (.ok w.store, w)
  | .write value => (.ok (), { w with store := value })
  | .now => (.ok (net.dateNow w.calls), w)
  | .randomValues => (.ok (b.random w.drawn), { w with drawn := w.drawn + 1 })
  | .call request =>
    match net.fault w.calls with
    | some .request => (.error (.bauth "network_error"), w.called net w.server)
    | some .response =>
      (.error (.bauth "network_error"), w.called net (w.serve app net request).after)
    | none =>
      ((w.serve app net request).response.mapError Failure.toError,
        w.called net (w.serve app net request).after)

end Flow

end Sdk

end Bauth
