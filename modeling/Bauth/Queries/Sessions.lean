import Bauth.Model.Schema

/-!
# `queries::sessions`
-/

namespace Bauth

open Transaction

namespace Session

/-- A session whose row is not revoked becomes revoked at `now`. -/
def revoke (now : Time) (s : Session) : Session := { s with revokedAt := some now }

end Session

namespace Sessions

/-- `authorization_code_id` is unique: a code opens one session at most. -/
def create (app : App) (userId : Uuid) (clientId : String) (authorizationCodeId : Uuid)
    (expiresAt : Time) : Statement sig (Except DbError Uuid) where
  label := .sessionsCreate
  locks _ _ := [(.user userId, .keyShare), (.authorizationCode authorizationCodeId, .keyShare)]
  run now n d :=
    let row : Session :=
      { id := app.uuid n, userId, clientId, authorizationCodeId := some authorizationCodeId
        expiresAt, revokedAt := none, createdAt := now }
    if d.sessions.any fun s => s.authorizationCodeId = some authorizationCodeId then
      (fun d => d, .error .uniqueViolation)
    else if (d.users.any fun u => u.id = userId) &&
        d.authorizationCodes.any fun c => c.id = authorizationCodeId then
      (fun d => { d with sessions := d.sessions ++ [row] }, .ok row.id)
    else (fun d => d, .error .foreignKeyViolation)

/-- `UPDATE bauth.sessions SET revoked_at = now() WHERE p AND revoked_at IS NULL`, with the
identifiers of the rows it changes. -/
def revokeWhere (label : Query) (p : Database → Session → Bool) : Statement sig (List Uuid) :=
  update label .sessions (fun _ d s => p d s && s.revokedAt.isNone) Session.revoke
    fun _ hit => hit.map Session.id

/-- Revokes the session opened with this authorization code, if any. -/
def revokeByAuthorizationCode (authorizationCodeId : Uuid) : Program sig Bool := do
  let revoked ← Program.query (revokeWhere .sessionsRevokeByAuthorizationCode fun _ s =>
    s.authorizationCodeId = some authorizationCodeId)
  return revoked.length = 1

def revoke (id : Uuid) : Program sig Unit := do
  let _ ← Program.query (revokeWhere (.sessionsRevoke id) fun _ s => s.id = id)

/-- Revokes the session this refresh token belongs to, if the token was issued to `clientId`. -/
def revokeByRefreshToken (tokenHash : Bytes) (clientId : String) :
    Program sig (Option Uuid) := do
  let revoked ← Program.query (revokeWhere .sessionsRevokeByRefreshToken fun d s =>
    s.clientId = clientId &&
      d.refreshTokens.any fun r => r.sessionId = s.id && r.tokenHash = tokenHash)
  return revoked.head?

structure AuthenticatedSession where
  userId : Uuid
  email : String
  deriving DecidableEq

/-- Who is behind an access token, if its session is still usable. -/
def findAuthenticated (id : Uuid) : Statement sig (Option AuthenticatedSession) :=
  .select .sessionsFindAuthenticated fun now (d : Database) => do
    let s ← d.sessions.find? fun s => s.id = id && s.revokedAt.isNone && now < s.expiresAt
    let u ← d.users.find? fun u => u.id = s.userId && u.disabledAt.isNone
    return { userId := s.userId, email := u.email }

structure ActiveSession where
  id : Uuid
  clientId : String
  createdAt : Time
  /-- When a refresh token was last issued. -/
  lastUsedAt : Time
  expiresAt : Time
  deriving DecidableEq

/-- The sessions of a user that are neither revoked nor expired, last used first. -/
def listActiveForUser (userId : Uuid) : Statement sig (List ActiveSession) :=
  .select .sessionsListActiveForUser fun now (d : Database) =>
    ((d.sessions.filter fun s => s.userId = userId && s.revokedAt.isNone && now < s.expiresAt).map
      fun s =>
        ({ id := s.id, clientId := s.clientId, createdAt := s.createdAt
           lastUsedAt := ((d.refreshTokens.filter fun r => r.sessionId = s.id).map
             RefreshToken.createdAt).max?.getD s.createdAt
           expiresAt := s.expiresAt } : ActiveSession)).mergeSort
      fun a b => b.lastUsedAt ≤ a.lastUsedAt

/-- Revokes one of the user's sessions. `false` if it doesn't exist, isn't theirs or is already
revoked. -/
def revokeForUser (id userId : Uuid) : Program sig Bool := do
  let revoked ← Program.query (revokeWhere .sessionsRevokeForUser fun _ s =>
    s.id = id && s.userId = userId)
  return revoked.length = 1

end Sessions

end Bauth
