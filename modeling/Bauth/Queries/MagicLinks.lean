import Bauth.Model.Schema

/-!
# `queries::magic_links`
-/

namespace Bauth

open Transaction

namespace MagicLink

/-- `consumed_at IS NULL AND expires_at > now()`. -/
def usable (l : MagicLink) (now : Time) : Bool := l.consumedAt.isNone && now < l.expiresAt

end MagicLink

namespace Database

/-- The newest link of a flow. -/
def newestLink (d : Database) (flowId : Uuid) : Option MagicLink :=
  newest MagicLink.createdAt MagicLink.id (d.magicLinks.filter fun l => l.flowId = flowId)

/-- Wrong codes typed for the links of `email` created after `since`. -/
def linkFailures (d : Database) (email : String) (since : Time) : ℕ :=
  ((d.magicLinks.filter fun l => l.email = email && since < l.createdAt).map
    MagicLink.codeFailures).sum

end Database

namespace MagicLinks

/-- `userId` is `none` for an address without an account. Returns the normalized address. -/
def create (app : App) (flowId : Uuid) (userId : Option Uuid) (email : String)
    (tokenHash codeHash : Bytes) (expiresAt : Time) : Statement sig (Except DbError String) where
  label := .magicLinksCreate
  locks _ _ := (.loginFlow flowId, .keyShare) :: (userId.toList.map fun u => (.user u, .keyShare))
  run now n d :=
    let row : MagicLink :=
      { id := app.uuid n, flowId, userId, email := app.unicode.normalize email, tokenHash, codeHash
        codeFailures := 0, expiresAt, consumedAt := none, createdAt := now }
    if d.magicLinks.any fun l => l.tokenHash = tokenHash then
      (fun d => d, .error .uniqueViolation)
    else if (d.loginFlows.any fun f => f.id = flowId) &&
        userId.all fun u => d.users.any fun r => r.id = u then
      (fun d => { d with magicLinks := d.magicLinks ++ [row] }, .ok row.email)
    else (fun d => d, .error .foreignKeyViolation)

structure ConsumedMagicLink where
  flowId : Uuid
  userId : Option Uuid
  email : String
  deriving DecidableEq

/-- Marks the link as used. `none` if unknown, expired or already used. -/
def consume (tokenHash : Bytes) : Statement sig (Option ConsumedMagicLink) :=
  update .magicLinksConsume .magicLinks (fun now _ l => l.tokenHash = tokenHash && l.usable now)
    (fun now l => { l with consumedAt := some now })
    fun _ hit => hit.head?.map fun l => { flowId := l.flowId, userId := l.userId, email := l.email }

structure CodeCandidate where
  id : Uuid
  userId : Option Uuid
  email : String
  codeHash : Bytes
  deriving DecidableEq

/-- The address of the flow's newest link. -/
def newestEmail (flowId : Uuid) : Statement sig (Option String) :=
  .select .magicLinksNewestEmail fun _ (d : Database) => (d.newestLink flowId).map MagicLink.email

/-- `pg_advisory_xact_lock` on the address, held until the transaction ends. -/
def lockAddress (email : String) : Statement sig Unit where
  label := .magicLinksLockAddress
  locks _ _ := [(.magicCode email, .update)]
  run _ _ _ := (fun d => d, ())

/-- The newest link of the flow, still pending, under both limits. -/
def selectCandidate (flowId : Uuid) (email : String) (maxLinkFailures maxAddressFailures : ℕ) :
    Statement sig (Option CodeCandidate) :=
  .select .magicLinksFindCodeCandidate fun now (d : Database) =>
    match d.newestLink flowId with
    | some l =>
      if l.email = email && l.usable now && l.codeFailures < maxLinkFailures &&
          d.linkFailures email (now - days 1) < maxAddressFailures then
        some { id := l.id, userId := l.userId, email := l.email, codeHash := l.codeHash }
      else none
    | none => none

/-- The link a code typed on this flow is checked against. The address is read first, and locked
before the link is looked up again. -/
def findCodeCandidate (flowId : Uuid) (maxLinkFailures maxAddressFailures : ℕ) :
    Program sig (Option CodeCandidate) := do
  match ← Program.query (newestEmail flowId) with
  | none => return none
  | some email =>
    Program.query (lockAddress email)
    Program.query (selectCandidate flowId email maxLinkFailures maxAddressFailures)

/-- Counts a wrong code on a link; consumes it at `maxLinkFailures`. -/
def recordCodeFailure (id : Uuid) (maxLinkFailures : ℕ) : Statement sig (Except DbError ℕ) :=
  update (.magicLinksRecordCodeFailure id) .magicLinks (fun _ _ l => l.id = id)
    (fun now l => { l with
      codeFailures := l.codeFailures + 1
      -- a `CASE` without `ELSE`: below the limit the column is set to NULL
      consumedAt := if maxLinkFailures ≤ l.codeFailures + 1 then some now else none })
    fun _ hit => match hit.head? with
      | some l => .ok (l.codeFailures + 1)
      | none => .error .rowNotFound

/-- Marks a link as used, which disables its code and its token. -/
def consumeById (id : Uuid) : Statement sig Unit :=
  update .magicLinksConsumeById .magicLinks (fun _ _ l => l.id = id)
    (fun now l => { l with consumedAt := some now }) fun _ _ => ()

end MagicLinks

end Bauth
