import Bauth.Model.Schema

/-!
# `queries::refresh_tokens`
-/

namespace Bauth

open Transaction

namespace RefreshToken

/-- Never exchanged, and not replaced by a retry of its parent. -/
def unused (r : RefreshToken) : Bool := r.rotatedAt.isNone && r.supersededAt.isNone

end RefreshToken

namespace Database

/-- Has a token rotated from `id` already been used? -/
def usedSuccessor (d : Database) (id : Uuid) : Bool :=
  d.refreshTokens.any fun r => r.parentId = some id && r.rotatedAt.isSome

end Database

namespace RefreshTokens

/-- `parentId`: the token this one replaces, `none` for the first token of a session. -/
def create (app : App) (sessionId : Uuid) (tokenHash : Bytes) (parentId : Option Uuid) :
    Statement sig (Except DbError Unit) where
  label := .refreshTokensCreate
  locks _ _ :=
    (.session sessionId, .keyShare) :: (parentId.toList.map fun p => (.refreshToken p, .keyShare))
  run now n d :=
    let row : RefreshToken :=
      { id := app.uuid n, sessionId, parentId, tokenHash, rotatedAt := none, supersededAt := none
        createdAt := now }
    if d.refreshTokens.any fun r => r.tokenHash = tokenHash then
      (fun d => d, .error .uniqueViolation)
    else if (d.sessions.any fun s => s.id = sessionId) &&
        parentId.all fun p => d.refreshTokens.any fun r => r.id = p then
      (fun d => { d with refreshTokens := d.refreshTokens ++ [row] }, .ok ())
    else (fun d => d, .error .foreignKeyViolation)

/-- A refresh token with the session it belongs to. -/
structure RefreshTokenWithSession where
  id : Uuid
  rotatedAt : Option Time
  supersededAt : Option Time
  sessionId : Uuid
  userId : Uuid
  clientId : String
  sessionExpiresAt : Time
  sessionRevokedAt : Option Time
  deriving DecidableEq

/-- The token of this hash joined with its session, as the statement's snapshot shows them. -/
def find (tokenHash : Bytes) : Statement sig (Option (RefreshToken × Session)) :=
  .select .refreshTokensFind fun _ (d : Database) => do
    let r ← d.refreshTokens.find? fun r => r.tokenHash = tokenHash
    let s ← d.sessions.find? fun s => s.id = r.sessionId
    return (r, s)

/-- `FOR UPDATE OF r`: the locked row, in its last committed version. -/
def lock (id : Uuid) : Statement sig (Option RefreshToken) where
  label := .refreshTokensLock id
  locks _ d :=
    if d.refreshTokens.any fun r => r.id = id then [(.refreshToken id, .update)] else []
  run _ _ d := (fun d => d, d.refreshTokens.find? fun r => r.id = id)

/-- Locks the token row until the transaction ends. Only the token is locked: the columns of the
session come from the snapshot taken before any wait. -/
def findForUpdate (tokenHash : Bytes) : Program sig (Option RefreshTokenWithSession) := do
  match ← Program.query (find tokenHash) with
  | none => return none
  | some (r, s) =>
    match ← Program.query (lock r.id) with
    | none => return none
    | some r =>
      return some
        { id := r.id, rotatedAt := r.rotatedAt, supersededAt := r.supersededAt, sessionId := s.id
          userId := s.userId, clientId := s.clientId, sessionExpiresAt := s.expiresAt
          sessionRevokedAt := s.revokedAt }

def markRotated (id : Uuid) : Statement sig Unit :=
  update .refreshTokensMarkRotated .refreshTokens (fun _ _ r => r.id = id && r.rotatedAt.isNone)
    (fun now r => { r with rotatedAt := some now }) fun _ _ => ()

def hasUsedSuccessor (id : Uuid) : Statement sig Bool :=
  .select .refreshTokensHasUsedSuccessor fun _ (d : Database) => d.usedSuccessor id

/-- The rows `supersede_unused_successors` finds when it starts. -/
def unusedSuccessors (parent : Uuid) : Statement sig (List Uuid) :=
  .select (.refreshTokensUnusedSuccessors parent) fun _ (d : Database) =>
    (d.refreshTokens.filter fun r => r.parentId = some parent && r.unused).map RefreshToken.id

/-- One row of the update, checked again once it is locked. -/
def supersede (parent id : Uuid) : Statement sig Unit :=
  update (.refreshTokensSupersede parent id) .refreshTokens
    (fun _ _ r => r.id = id && r.parentId = some parent && r.unused)
    (fun now r => { r with supersededAt := some now }) fun _ _ => ()

def supersedeEach (parent : Uuid) : List Uuid → Program sig Unit
  | [] => return ()
  | id :: ids => do
    Program.query (supersede parent id)
    supersedeEach parent ids

/-- A retried refresh replaces the successors nobody used. The update locks the rows it found one
after the other. -/
def supersedeUnusedSuccessors (parent : Uuid) : Program sig Unit := do
  let ids ← Program.query (unusedSuccessors parent)
  supersedeEach parent ids

end RefreshTokens

end Bauth
