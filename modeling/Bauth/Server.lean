import Bauth.Routes.Me
import Bauth.Jobs.Purge

/-!
# The server

Every request the server handles and the purge job, as one family of programs, and what happens
when they are served one at a time.
-/

namespace Bauth

open Transaction

/-- A request, parsed; `authorization` is the value of that header. The purge job and the
`UPDATE` with which an operator disables an account (nothing else writes that column) are served
like requests. -/
inductive Request where
  | createFlow (input : Login.CreateFlowRequest)
  | requestMagicLink (clientIp : String) (flowId : Uuid) (email : String)
  | confirmMagicLink (clientIp token : String)
  | confirmMagicCode (clientIp : String) (flowId : Uuid) (code : String)
  | token (input : OAuth.TokenRequest)
  | revoke (input : OAuth.RevokeRequest)
  | getMe (authorization : Option String)
  | listSessions (authorization : Option String)
  | revokeSession (authorization : Option String) (sessionId : Uuid)
  | requestConfirmation (clientIp : String) (authorization : Option String)
      (action : Me.ConfirmationAction)
  | changeEmail (clientIp : String) (authorization : Option String) (code newEmail : String)
  | deleteAccount (clientIp : String) (authorization : Option String) (code : String)
  | confirmEmailChange (clientIp token : String)
  | purge (fuel : ℕ)
  | setDisabled (userId : Uuid) (disabledAt : Option Time)
  deriving DecidableEq

/-- The body of a successful answer. -/
inductive Body where
  | flow (response : Login.FlowResponse)
  | magicLinkSent (response : MagicLink.MagicLinkResponse)
  | loggedIn (response : Login.LoginResponse)
  | tokens (response : OAuth.TokenResponse)
  | me (response : Me.MeResponse)
  | sessions (response : List Me.SessionResponse)
  | done
  | purged (report : Option Purge.PurgeReport)
  deriving DecidableEq

inductive Failure where
  | api (error : ApiError)
  | oauth (error : OAuthError)
  deriving DecidableEq

def Failure.status : Failure → ℕ
  | api error => error.status
  | oauth error => error.status

abbrev Response := Except Failure Body

/-- Answered with a 5xx. -/
def Failure.isServerError (f : Failure) : Bool := 500 ≤ f.status

/-- Answer an app route. -/
def apiRoute {α : Type} (body : α → Body) (h : Handler ApiError α) : Program sig Response := do
  match ← h.run with
  | .ok a => return .ok (body a)
  | .error e => return .error (.api e)

/-- Answer an OAuth route. -/
def oauthRoute {α : Type} (body : α → Body) (h : Handler OAuthError α) :
    Program sig Response := do
  match ← h.run with
  | .ok a => return .ok (body a)
  | .error e => return .error (.oauth e)

def handle (app : App) : Request → Program sig Response
  | .createFlow input => apiRoute .flow (Login.createFlow app input)
  | .requestMagicLink ip flowId email =>
    apiRoute .magicLinkSent (MagicLink.request app ip flowId email)
  | .confirmMagicLink ip token => apiRoute .loggedIn (MagicLink.confirm app ip token)
  | .confirmMagicCode ip flowId code =>
    apiRoute .loggedIn (MagicLink.confirmCode app ip flowId code)
  | .token input => oauthRoute .tokens (OAuth.token app input)
  | .revoke input => oauthRoute (fun _ => .done) (OAuth.revoke app input)
  | .getMe authorization => apiRoute .me (Me.get app authorization)
  | .listSessions authorization => apiRoute .sessions (Me.listSessions app authorization)
  | .revokeSession authorization sessionId =>
    apiRoute (fun _ => .done) (Me.revokeSession app authorization sessionId)
  | .requestConfirmation ip authorization action =>
    apiRoute (fun _ => .done) (Me.requestConfirmation app ip authorization action)
  | .changeEmail ip authorization code newEmail =>
    apiRoute (fun _ => .done) (Me.changeEmail app ip authorization code newEmail)
  | .deleteAccount ip authorization code =>
    apiRoute (fun _ => .done) (Me.deleteAccount app ip authorization code)
  | .confirmEmailChange ip token => apiRoute (fun _ => .done) (EmailChange.confirm app ip token)
  | .purge fuel => do return .ok (.purged (← Purge.purge fuel))
  | .setDisabled userId disabledAt => do
    Program.query (Users.setDisabled userId disabledAt)
    return .ok .done

/-! ### Requests served one at a time -/

/-- What is stored, how many requests were served so far and when the last one was. -/
structure Server where
  db : Database
  served : ℕ
  clock : Time
  deriving DecidableEq

/-- One request as it was served: when, with what answers from outside the database, from which
state, and what came out. -/
structure Served where
  time : Time
  reply : (q : Question) → Reply q
  request : Request
  before : Server
  after : Server
  response : Response
  events : List Event

/-- Serve a request at one instant, with nobody else using the database. -/
def serve (app : App) (time : Time) (reply : (q : Question) → Reply q) (request : Request)
    (s : Server) : Served :=
  let out := Program.serve (S := sig) ⟨time, time, reply⟩ s.served (handle app request) s.db
  { time, reply, request, before := s
    after := { db := out.db, served := s.served + 1, clock := time }
    response := out.answer, events := out.events }

/-- A run: the requests served one after the other from a state, oldest first, the clock never
going back. -/
inductive Run (app : App) (s : Server) : List Served → Server → Prop where
  | nil : Run app s [] s
  | snoc {steps : List Served} {s' : Server} (h : Run app s steps s') (time : Time)
      (reply : (q : Question) → Reply q) (request : Request) (clock : s'.clock ≤ time) :
      Run app s (steps ++ [serve app time reply request s'])
        (serve app time reply request s').after

/-- The states a server started on an empty database gets to. -/
def Reachable (app : App) (s : Server) : Prop :=
  ∃ clock steps, Run app { db := {}, served := 0, clock } steps s

end Bauth
