import Bauth.Model.Schema

/-!
# `queries::authorization_codes`
-/

namespace Bauth

open Transaction

namespace AuthorizationCode

/-- `consumed_at IS NULL AND expires_at > now()`. -/
def usable (c : AuthorizationCode) (now : Time) : Bool := c.consumedAt.isNone && now < c.expiresAt

end AuthorizationCode

namespace AuthorizationCodes

/-- `flow_id` is unique: a flow has one code at most. -/
def create (app : App) (codeHash : Bytes) (flowId userId : Uuid) (expiresAt : Time) :
    Statement sig (Except DbError Unit) where
  label := .authorizationCodesCreate
  locks _ _ := [(.loginFlow flowId, .keyShare), (.user userId, .keyShare)]
  run now n d :=
    let row : AuthorizationCode :=
      { id := app.uuid n, codeHash, flowId, userId, expiresAt, consumedAt := none
        createdAt := now }
    if d.authorizationCodes.any fun c => c.codeHash = codeHash || c.flowId = flowId then
      (fun d => d, .error .uniqueViolation)
    else if (d.loginFlows.any fun f => f.id = flowId) && d.users.any fun u => u.id = userId then
      (fun d => { d with authorizationCodes := d.authorizationCodes ++ [row] }, .ok ())
    else (fun d => d, .error .foreignKeyViolation)

structure ConsumedCode where
  id : Uuid
  userId : Uuid
  clientId : String
  redirectUri : String
  codeChallenge : String
  deriving DecidableEq

/-- Marks the code used and returns what it was issued for.
`none` if unknown, expired or already used. -/
def consume (codeHash : Bytes) : Statement sig (Option ConsumedCode) :=
  update .authorizationCodesConsume .authorizationCodes
    (fun now d c => c.codeHash = codeHash && c.usable now &&
      d.loginFlows.any fun f => f.id = c.flowId)
    (fun now c => { c with consumedAt := some now })
    fun d hit => do
      let c ← hit.head?
      let f ← d.loginFlows.find? fun f => f.id = c.flowId
      return {
        id := c.id
        userId := c.userId
        clientId := f.clientId
        redirectUri := f.redirectUri
        codeChallenge := f.codeChallenge }

/-- Id of a code that was already exchanged. -/
def findConsumed (codeHash : Bytes) : Statement sig (Option Uuid) :=
  .select .authorizationCodesFindConsumed fun _ (d : Database) =>
    (d.authorizationCodes.find? fun c => c.codeHash = codeHash && c.consumedAt.isSome).map
      AuthorizationCode.id

end AuthorizationCodes

end Bauth
