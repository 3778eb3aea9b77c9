import Bauth.Model.Schema

/-!
# `queries::email_changes`
-/

namespace Bauth

open Transaction

namespace EmailChange

/-- `consumed_at IS NULL AND expires_at > now()`. -/
def usable (c : EmailChange) (now : Time) : Bool := c.consumedAt.isNone && now < c.expiresAt

end EmailChange

namespace EmailChanges

def create (app : App) (userId : Uuid) (fromEmail toEmail : String) (tokenHash : Bytes)
    (expiresAt : Time) : Statement sig (Except DbError Unit) where
  label := .emailChangesCreate
  locks _ _ := [(.user userId, .keyShare)]
  run now n d :=
    let row : EmailChange :=
      { id := app.uuid n, userId, fromEmail, toEmail := app.unicode.normalize toEmail, tokenHash
        expiresAt, consumedAt := none, createdAt := now }
    if d.emailChanges.any fun c => c.tokenHash = tokenHash then
      (fun d => d, .error .uniqueViolation)
    else if d.users.any fun u => u.id = userId then
      (fun d => { d with emailChanges := d.emailChanges ++ [row] }, .ok ())
    else (fun d => d, .error .foreignKeyViolation)

structure ConsumedEmailChange where
  userId : Uuid
  fromEmail : String
  toEmail : String
  deriving DecidableEq

/-- Marks the token as used. `none` if unknown, expired or already used. -/
def consume (tokenHash : Bytes) : Statement sig (Option ConsumedEmailChange) :=
  update .emailChangesConsume .emailChanges
    (fun now _ c => c.tokenHash = tokenHash && c.usable now)
    (fun now c => { c with consumedAt := some now })
    fun _ hit => hit.head?.map fun c =>
      { userId := c.userId, fromEmail := c.fromEmail, toEmail := c.toEmail }

end EmailChanges

end Bauth
