import Bauth.Transition.Async
import Bauth.Transition.System
import Mathlib.Data.Int.Notation

/-!
# `createSession` of the SDK

The calls of one session object, interleaved at every `await`. A call is an asynchronous function;
the request of `refresh`, that the calls share, is a task of its own. The store, bauth and the APIs
answer when they like.
-/

namespace Bauth

open Transition

namespace Sdk

/-- What may be thrown: a `BauthError` with its code, or anything else. -/
inductive Error where
  | bauth (code : String)
  | other
  deriving DecidableEq, Repr

/-- What bauth answers to a refresh. -/
structure Tokens where
  accessToken : String
  refreshToken : String
  expiresIn : ℤ
  deriving DecidableEq, Repr

structure StoredTokens where
  accessToken : String
  refreshToken : String
  expiresAt : Option ℤ
  deriving DecidableEq, Repr

/-- The options of a session, and how it reads the `exp` of an access token. -/
structure Options where
  expiryMarginMs : ℤ := 30000
  accessTokenExpiry : String → Option ℤ

def expiryOf (o : Options) (tokens : StoredTokens) : Option ℤ :=
  tokens.expiresAt <|> o.accessTokenExpiry tokens.accessToken

def isExpiring (o : Options) (now : ℤ) (tokens : StoredTokens) (margin : ℤ) : Bool :=
  (expiryOf o tokens).getD 0 - now < margin

def toStored (now : ℤ) (tokens : Tokens) : StoredTokens where
  accessToken := tokens.accessToken
  refreshToken := tokens.refreshToken
  expiresAt := some (now + tokens.expiresIn * 1000)

/-- A string that is neither missing nor empty. -/
def truthy (s : Option String) : Option String := s.filter fun s => s ≠ ""

/-! ### The calls -/

/-- What a call may await. Reading the clock and the replayable requests of a middleware takes no
time, but other calls may run before it. -/
inductive Op where
  | read
  | write (value : Option StoredTokens)
  | refresh
  /-- `refreshOnce` of a middleware. -/
  | refreshOnce (middleware : ℕ)
  /-- The promise of a refresh, that a middleware may have shared again. -/
  | promise (task : ℕ) (middleware : Option ℕ)
  /-- A request to an API, with its bearer token. -/
  | send (authorization : Option String)
  /-- `bauth.logout`. -/
  | revoke (refreshToken : String)
  | now
  | keep (middleware id : ℕ)
  | take (middleware id : ℕ)
  deriving DecidableEq

/-- The answer of each: of an API, the status. -/
def Op.Answer : Op → Type
  | read => Option StoredTokens
  | write _ => Unit
  | refresh => Option String
  | refreshOnce _ => Option String
  | promise _ _ => Option String
  | send _ => ℕ
  | revoke _ => Unit
  | now => ℤ
  | keep _ _ => Unit
  | take _ _ => Bool

abbrev awaits : Awaits := ⟨Op, Op.Answer, Error⟩

/-- What a call returns. A response comes with whether `onUnauthorized` was called. -/
inductive Outcome where
  | nothing
  | token (token : Option String)
  | request (authorization : Option String)
  | response (status : Option ℕ) (unauthorized : Bool)
  deriving DecidableEq, Repr

def readStore : Async awaits (Option StoredTokens) := .perform (A := awaits) .read

def writeStore (value : Option StoredTokens) : Async awaits Unit :=
  .perform (A := awaits) (.write value)

def dateNow : Async awaits ℤ := .perform (A := awaits) .now

def refresh : Async awaits (Option String) := .perform (A := awaits) .refresh

def refreshOnce (m : ℕ) : Async awaits (Option String) := .perform (A := awaits) (.refreshOnce m)

def send (authorization : Option String) : Async awaits ℕ :=
  .perform (A := awaits) (.send authorization)

def bauthLogout (refreshToken : String) : Async awaits Unit :=
  .perform (A := awaits) (.revoke refreshToken)

def save (tokens : Tokens) : Async awaits Unit := do
  writeStore (some (toStored (← dateNow) tokens))

def accessToken (o : Options) : Async awaits (Option String) := do
  match ← readStore with
  | none => return none
  | some stored =>
    if !isExpiring o (← dateNow) stored o.expiryMarginMs then return some stored.accessToken
    else
      -- transient failure: the current token is still worth sending until it really expires
      refresh.catching fun _ => do
        return if isExpiring o (← dateNow) stored 0 then none else some stored.accessToken

def logout : Async awaits Unit := do
  let stored ← readStore
  writeStore none
  match stored with
  | none => return ()
  | some stored => (bauthLogout stored.refreshToken).catching fun _ => return ()

/-- One request through `fetcher`. -/
def fetcher (o : Options) : Async awaits Outcome := do
  match truthy (← accessToken o) with
  | none => return .response (some (← send none)) false
  | some sent =>
    let status ← send (some sent)
    if status ≠ 401 then return .response (some status) false
    else
      let latest := truthy ((← readStore).map StoredTokens.accessToken)
      let next := if latest.isSome && latest ≠ some sent then pure latest else refresh
      match ← next.attempt with
      | .error _ => return .response (some status) false
      | .ok next =>
        match truthy next with
        | none => return .response (some status) true
        | some next =>
          let retried ← send (some next)
          return .response (some retried) (retried = 401)

/-- `isAccessTokenExpiring` of `middleware`. -/
def isAccessTokenExpiring (o : Options) : Async awaits Bool := do
  match ← readStore with
  | none => return false
  | some stored => return isExpiring o (← dateNow) stored o.expiryMarginMs

/-- The token that `onRequest` sends, renewed if it is about to expire. -/
def requestToken (o : Options) (m : ℕ) : Async awaits (Option String) := do
  let accessToken := (← readStore).map StoredTokens.accessToken
  match truthy accessToken with
  | none => return accessToken
  | some current =>
    if ← isAccessTokenExpiring o then
      let refreshed ← (refreshOnce m).catching fun _ => return none
      return refreshed <|> some current
    else return some current

def onRequest (o : Options) (m id : ℕ) : Async awaits Outcome := do
  let accessToken ← requestToken o m
  .perform (A := awaits) (.keep m id)
  return .request (truthy accessToken)

def onResponse (m id status : ℕ) : Async awaits Outcome := do
  let request ← Async.perform (A := awaits) (.take m id)
  if status ≠ 401 || !request then return .response none false
  else
    match truthy (← refreshOnce m) with
    | none => return .response none true
    | some accessToken =>
      let retried ← send (some accessToken)
      return .response (some retried) (retried = 401)

def onError (m id : ℕ) : Async awaits Outcome := do
  let _ ← Async.perform (A := awaits) (.take m id)
  return .nothing

inductive Call where
  | save (tokens : Tokens)
  | accessToken
  | refresh
  | logout
  | fetch
  | onRequest (middleware id : ℕ)
  | onResponse (middleware id status : ℕ)
  | onError (middleware id : ℕ)
  deriving DecidableEq

def Call.run (o : Options) : Call → Async awaits Outcome
  | save tokens => do Sdk.save tokens; return .nothing
  | accessToken => do return .token (← Sdk.accessToken o)
  | refresh => do return .token (← Sdk.refresh)
  | logout => do Sdk.logout; return .nothing
  | fetch => fetcher o
  | onRequest m id => Sdk.onRequest o m id
  | onResponse m id status => Sdk.onResponse m id status
  | onError m id => Sdk.onError m id

/-! ### The shared refresh -/

/-- How far the request shared by the calls of `refresh` got. -/
inductive Refresh where
  | reading
  /-- The store was read; nothing is sent yet. -/
  | hasRead (stored : Option StoredTokens)
  /-- `bauth.refresh` is in flight. -/
  | sent (stored : StoredTokens)
  | writing (value : Option StoredTokens) (token : Option String)
  /-- It ended, and `refreshing` is not cleared yet. -/
  | settled (result : Except Error (Option String))
  | finished (result : Except Error (Option String))
  deriving DecidableEq

/-- The `catch` of `refresh`. -/
def Refresh.caught (e : Error) : Refresh :=
  if e = .bauth "invalid_grant" then .writing none none else .settled (.error e)

/-- `bauth.refresh` is answered. -/
def Refresh.answered (now : ℤ) : Except Error Tokens → Refresh
  | .ok tokens => .writing (some (toStored now tokens)) (some tokens.accessToken)
  | .error e => caught e

/-- A write of the store fails: the one of new tokens is within the `try`. -/
def Refresh.writeFailed (value : Option StoredTokens) (e : Error) : Refresh :=
  if value.isSome then caught e else .settled (.error e)

structure Middleware where
  refreshing : Option ℕ := none
  /-- The ids of the requests kept for a replay. -/
  replayable : List ℕ := []
  deriving DecidableEq

structure State where
  clock : ℤ
  store : Option StoredTokens
  refreshing : Option ℕ
  tasks : List Refresh
  middlewares : List Middleware
  threads : List (Async awaits Outcome)

inductive Action where
  | tick (time : ℤ)
  | middleware
  | call (c : Call)
  /-- What a call awaits comes to pass. -/
  | perform (thread : ℕ)
  /-- The store or the network fails a call. -/
  | fail (thread : ℕ) (e : Error)
  /-- An API answers. -/
  | respond (thread : ℕ) (status : ℕ)
  /-- The `finally` of `refreshOnce`. -/
  | release (middleware : ℕ)
  | taskRead (task : ℕ)
  | taskReadFails (task : ℕ) (e : Error)
  | taskSend (task : ℕ)
  | taskAnswer (task : ℕ) (answer : Except Error Tokens)
  | taskWrite (task : ℕ)
  | taskWriteFails (task : ℕ) (e : Error)
  /-- The `finally` of `refresh`. -/
  | taskFinally (task : ℕ)

/-- The thread goes on with `p`. -/
def State.resume (s : State) (i : ℕ) (p : Async awaits Outcome) : State :=
  { s with threads := s.threads.set i p }

def State.setTask (s : State) (t : ℕ) (r : Refresh) : State := { s with tasks := s.tasks.set t r }

/-- `refreshing ??= …`, and the promise it is then. -/
def State.startRefresh (s : State) : State × ℕ :=
  match s.refreshing with
  | some t => (s, t)
  | none => ({ s with refreshing := some s.tasks.length, tasks := s.tasks ++ [.reading] },
      s.tasks.length)

def perform (s : State) (i : ℕ) :
    (op : Op) → (Except Error op.Answer → Async awaits Outcome) → Option State
  | .read, k => some (s.resume i (k (.ok s.store)))
  | .write value, k => some ({ s with store := value }.resume i (k (.ok ())))
  | .refresh, k =>
    let (s', t) := s.startRefresh
    some (s'.resume i (.await (.promise t none) k))
  | .refreshOnce m, k =>
    match s.middlewares[m]? with
    | none => none
    | some mw =>
      match mw.refreshing with
      | some t => some (s.resume i (.await (.promise t (some m)) k))
      | none =>
        let (s', t) := s.startRefresh
        let middlewares := s.middlewares.set m { mw with refreshing := some t }
        some ({ s' with middlewares }.resume i (.await (.promise t (some m)) k))
  | .promise t m, k =>
    match s.tasks[t]? with
    | some (.finished result) =>
      -- the middleware's own promise ends with its `finally`
      if (m.bind fun m => s.middlewares[m]?).bind Middleware.refreshing = some t then none
      else some (s.resume i (k result))
    | _ => none
  | .send _, _ => none
  | .revoke _, k => some (s.resume i (k (.ok ())))
  | .now, k => some (s.resume i (k (.ok s.clock)))
  | .keep m id, k =>
    let keep (mw : Middleware) : Middleware := { mw with replayable := id :: mw.replayable }
    some ({ s with middlewares := s.middlewares.modify m keep }.resume i (k (.ok ())))
  | .take m id, k =>
    let take (mw : Middleware) : Middleware :=
      { mw with replayable := mw.replayable.filter (· ≠ id) }
    let kept := s.middlewares[m]?.any fun mw => mw.replayable.contains id
    some ({ s with middlewares := s.middlewares.modify m take }.resume i (k (.ok kept)))

/-- The operations that the outside may fail. -/
def Op.canFail : Op → Bool
  | read | write _ | send _ | revoke _ => true
  | _ => false

def step (o : Options) (s : State) : Action → Option State
  | .tick time => if s.clock ≤ time then some { s with clock := time } else none
  | .middleware => some { s with middlewares := s.middlewares ++ [{}] }
  | .call c => some { s with threads := s.threads ++ [c.run o] }
  | .perform i =>
    match s.threads[i]? with
    | some (.await op k) => perform s i op k
    | _ => none
  | .fail i e =>
    match s.threads[i]? with
    | some (.await op k) => if op.canFail then some (s.resume i (k (.error e))) else none
    | _ => none
  | .respond i status =>
    match s.threads[i]? with
    | some (.await (.send _) k) => some (s.resume i (k (.ok status)))
    | _ => none
  | .release m =>
    match s.middlewares[m]? with
    | some ⟨some t, replayable⟩ =>
      match s.tasks[t]? with
      | some (.finished _) => some { s with middlewares := s.middlewares.set m ⟨none, replayable⟩ }
      | _ => none
    | _ => none
  | .taskRead t =>
    match s.tasks[t]? with
    | some .reading => some (s.setTask t (.hasRead s.store))
    | _ => none
  | .taskReadFails t e =>
    match s.tasks[t]? with
    | some .reading => some (s.setTask t (.settled (.error e)))
    | _ => none
  | .taskSend t =>
    match s.tasks[t]? with
    | some (.hasRead none) => some (s.setTask t (.settled (.ok none)))
    | some (.hasRead (some stored)) => some (s.setTask t (.sent stored))
    | _ => none
  | .taskAnswer t answer =>
    match s.tasks[t]? with
    | some (.sent _) => some (s.setTask t (.answered s.clock answer))
    | _ => none
  | .taskWrite t =>
    match s.tasks[t]? with
    | some (.writing value token) => some ({ s with store := value }.setTask t (.settled (.ok token)))
    | _ => none
  | .taskWriteFails t e =>
    match s.tasks[t]? with
    | some (.writing value _) => some (s.setTask t (.writeFailed value e))
    | _ => none
  | .taskFinally t =>
    match s.tasks[t]? with
    | some (.settled result) => some ({ s with refreshing := none }.setTask t (.finished result))
    | _ => none

def system (o : Options) : System State Action := ⟨step o⟩

/-- A session just created over a store. -/
def createSession (clock : ℤ) (store : Option StoredTokens) : State :=
  { clock, store, refreshing := none, tasks := [], middlewares := [], threads := [] }

end Sdk

end Bauth
