import Bauth.Queries.Users

/-!
# `queries::confirmations`
-/

namespace Bauth

open Transaction

namespace Confirmation

/-- `consumed_at IS NULL AND expires_at > now()`. -/
def usable (c : Confirmation) (now : Time) : Bool := c.consumedAt.isNone && now < c.expiresAt

end Confirmation

namespace Database

/-- The newest confirmation of a session for an action. -/
def newestConfirmation (d : Database) (sessionId : Uuid) (action : String) :
    Option Confirmation :=
  newest Confirmation.createdAt Confirmation.id
    (d.confirmations.filter fun c => c.sessionId = sessionId && c.action = action)

/-- Wrong codes typed for the confirmations of an account created after `since`. -/
def confirmationFailures (d : Database) (userId : Uuid) (since : Time) : ℕ :=
  ((d.confirmations.filter fun c => c.userId = userId && since < c.createdAt).map
    Confirmation.codeFailures).sum

end Database

namespace Confirmations

def create (app : App) (userId sessionId : Uuid) (action email : String) (codeHash : Bytes)
    (expiresAt : Time) : Statement sig (Except DbError Unit) where
  label := .confirmationsCreate
  locks _ _ := [(.user userId, .keyShare), (.session sessionId, .keyShare)]
  run now n d :=
    let row : Confirmation :=
      { id := app.uuid n, userId, sessionId, action, email, codeHash, codeFailures := 0, expiresAt
        consumedAt := none, createdAt := now }
    if (d.users.any fun u => u.id = userId) && d.sessions.any fun s => s.id = sessionId then
      (fun d => { d with confirmations := d.confirmations ++ [row] }, .ok ())
    else (fun d => d, .error .foreignKeyViolation)

structure CodeCandidate where
  id : Uuid
  email : String
  codeHash : Bytes
  deriving DecidableEq

/-- The newest confirmation of the session for the action, still pending, under both limits. -/
def selectCandidate (userId sessionId : Uuid) (action : String)
    (maxCodeFailures maxUserFailures : ℕ) : Statement sig (Option CodeCandidate) :=
  .select .confirmationsFindCodeCandidate fun now (d : Database) =>
    match d.newestConfirmation sessionId action with
    | some c =>
      if c.usable now && c.codeFailures < maxCodeFailures &&
          d.confirmationFailures userId (now - days 1) < maxUserFailures then
        some { id := c.id, email := c.email, codeHash := c.codeHash }
      else none
    | none => none

/-- The confirmation a code is checked against, looked up once the account is locked. -/
def findCodeCandidate (userId sessionId : Uuid) (action : String)
    (maxCodeFailures maxUserFailures : ℕ) : Program sig (Option CodeCandidate) := do
  Program.query (Users.lock userId)
  Program.query (selectCandidate userId sessionId action maxCodeFailures maxUserFailures)

/-- Counts a wrong code on a confirmation; consumes it at the limit. -/
def recordCodeFailure (id : Uuid) (maxCodeFailures : ℕ) : Statement sig (Except DbError ℕ) :=
  update (.confirmationsRecordCodeFailure id) .confirmations (fun _ _ c => c.id = id)
    (fun now c => { c with
      codeFailures := c.codeFailures + 1
      consumedAt := if maxCodeFailures ≤ c.codeFailures + 1 then some now else none })
    fun _ hit => match hit.head? with
      | some c => .ok (c.codeFailures + 1)
      | none => .error .rowNotFound

/-- Marks a confirmation as used. -/
def consumeById (id : Uuid) : Statement sig Unit :=
  update .confirmationsConsumeById .confirmations (fun _ _ c => c.id = id)
    (fun now c => { c with consumedAt := some now }) fun _ _ => ()

end Confirmations

end Bauth
