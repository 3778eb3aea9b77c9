import Bauth.Model.Schema
import Bauth.Transaction.Cascade

/-!
# `queries::users`, and deletions with their cascades

`ON DELETE CASCADE` and `ON DELETE SET NULL` of the migrations are part of the deletions below: an
account takes its sessions, codes, links and pending changes with it, a session its refresh
tokens and confirmations, a refresh token those rotated from it, a flow its links and codes.
-/

namespace Bauth

open Transaction

/-- `parent_id` is the row `p`. -/
def RefreshToken.rotatedFrom (r p : RefreshToken) : Bool := r.parentId = some p.id

namespace Database

/-- A refresh token is of the session of the token it was rotated from. -/
def ParentsWithin (d : Database) : Prop :=
  ∀ r ∈ d.refreshTokens, ∀ p ∈ d.refreshTokens, r.parentId = some p.id → r.sessionId = p.sessionId

lemma ParentsWithin.of_subset {d d' : Database} (h : d.ParentsWithin)
    (hsub : d'.refreshTokens ⊆ d.refreshTokens) : d'.ParentsWithin :=
  fun r hr p hp hparent => h r (hsub hr) p (hsub hp) hparent

/-- Delete the sessions satisfying `p`, with their refresh tokens, the tokens rotated from these,
and their confirmations. -/
def deleteSessions (p : Session → Bool) (d : Database) : Database :=
  let gone := fun id => d.sessions.any fun s => s.id = id && p s
  { d with
    sessions := d.sessions.filter fun s => !p s
    refreshTokens := d.refreshTokens.filter fun r =>
      !cascades RefreshToken.rotatedFrom d.refreshTokens (fun r => gone r.sessionId) r
    confirmations := d.confirmations.filter fun c => !gone c.sessionId }

/-- Then no token goes that is of a session that stays. -/
lemma deleteSessions_refreshTokens {d : Database} (h : d.ParentsWithin) (p : Session → Bool) :
    (d.deleteSessions p).refreshTokens =
      d.refreshTokens.filter fun r => !d.sessions.any fun s => s.id = r.sessionId && p s := by
  refine List.filter_congr fun r hr => congrArg Bool.not (cascades_eq ?_ hr)
  intro r hr r' hr' hrefers hgone
  rw [h r hr r' hr' (of_decide_eq_true hrefers)]
  exact hgone

/-- Delete the authorization codes satisfying `p`; the sessions they opened forget them. -/
def deleteAuthorizationCodes (p : AuthorizationCode → Bool) (d : Database) : Database :=
  let gone := fun id => d.authorizationCodes.any fun c => c.id = id && p c
  { d with
    authorizationCodes := d.authorizationCodes.filter fun c => !p c
    sessions := updateWhere (fun s => s.authorizationCodeId.any gone)
      (fun s => { s with authorizationCodeId := none }) d.sessions }

/-- Delete the login flows satisfying `p`, with their magic links and authorization codes. -/
def deleteLoginFlows (p : LoginFlow → Bool) (d : Database) : Database :=
  let gone := fun id => d.loginFlows.any fun f => f.id = id && p f
  { d with
    loginFlows := d.loginFlows.filter fun f => !p f
    magicLinks := d.magicLinks.filter fun l => !gone l.flowId }.deleteAuthorizationCodes
      fun c => gone c.flowId

/-- Delete the accounts satisfying `p` with everything of theirs. -/
def deleteUsers (p : User → Bool) (d : Database) : Database :=
  let gone := fun id => d.users.any fun u => u.id = id && p u
  ({ d with
    users := d.users.filter fun u => !p u
    magicLinks := d.magicLinks.filter fun l => !l.userId.any gone
    emailChanges := d.emailChanges.filter fun c => !gone c.userId
    confirmations := d.confirmations.filter fun c => !gone c.userId }.deleteAuthorizationCodes
      fun c => gone c.userId).deleteSessions fun s => gone s.userId

/-- The locks of the rows that are gone from a table or changed in it. -/
def lostRows {ρ : Type} [DecidableEq ρ] (lock : ρ → Locked) (rows rows' : List ρ) :
    List RowLock :=
  (rows.filter fun r => r ∉ rows').map fun r => (lock r, .update)

/-- The locks a deletion takes: the rows of `d` that `d'` has lost or holds changed. -/
def lost (d d' : Database) : List RowLock :=
  lostRows (fun r => .user r.id) d.users d'.users ++
  lostRows (fun r => .loginFlow r.id) d.loginFlows d'.loginFlows ++
  lostRows (fun r => .magicLink r.id) d.magicLinks d'.magicLinks ++
  lostRows (fun r => .authorizationCode r.id) d.authorizationCodes d'.authorizationCodes ++
  lostRows (fun r => .session r.id) d.sessions d'.sessions ++
  lostRows (fun r => .refreshToken r.id) d.refreshTokens d'.refreshTokens ++
  lostRows (fun r => .emailChange r.id) d.emailChanges d'.emailChanges ++
  lostRows (fun r => .confirmation r.id) d.confirmations d'.confirmations ++
  lostRows (fun r => .signingKey r.id) d.signingKeys d'.signingKeys

end Database

namespace Users

/-- `INSERT … VALUES (lower(btrim($1))) ON CONFLICT (email) DO NOTHING`. -/
def create (app : App) (email : String) : Statement sig (Option User) where
  label := .usersCreate
  locks _ d :=
    if d.users.any fun u => u.email = app.unicode.normalize email then []
    else [(.userEmail (app.unicode.normalize email), .update)]
  run now n d :=
    let row : User :=
      { id := app.uuid n, email := app.unicode.normalize email, emailVerifiedAt := none
        disabledAt := none, createdAt := now, updatedAt := now }
    if d.users.any fun u => u.email = app.unicode.normalize email then (fun d => d, none)
    else (fun d => { d with users := d.users ++ [row] }, some row)

def findByEmail (app : App) (email : String) : Statement sig (Option User) :=
  .select .usersFindByEmail fun _ (d : Database) =>
    d.users.find? fun u => u.email = app.unicode.normalize email

def findById (id : Uuid) : Statement sig (Option User) :=
  .select .usersFindById fun _ (d : Database) => d.users.find? fun u => u.id = id

/-- Marks `email` as verified, only if it is still the user's current address. -/
def markEmailVerified (id : Uuid) (email : String) : Statement sig Unit :=
  update .usersMarkEmailVerified .users (fun _ _ u => u.id = id && u.email = email)
    (fun now u =>
      { u with emailVerifiedAt := some (u.emailVerifiedAt.getD now), updatedAt := now })
    fun _ _ => ()

/-- Moves the account to a new, now verified, address, only if it still uses `fromEmail`. -/
def changeEmail (id : Uuid) (fromEmail toEmail : String) :
    Statement sig (Except DbError Bool) where
  label := .usersChangeEmail
  locks _ d :=
    if d.users.any fun u => u.id = id && u.email = fromEmail then
      [(.user id, .update), (.userEmail toEmail, .update)]
    else []
  run now _ d :=
    let hit := d.users.filter fun u => u.id = id && u.email = fromEmail
    if !hit.isEmpty && d.users.any fun u => u.id ≠ id && u.email = toEmail then
      (fun d => d, .error .uniqueViolation)
    else
      (Table.users.modify (hit.map User.id) fun u =>
        { u with email := toEmail, emailVerifiedAt := some now, updatedAt := now },
        .ok (hit.length = 1))

/-- `DELETE FROM bauth.users WHERE id = $1`. -/
def delete (id : Uuid) : Statement sig Unit where
  label := .usersDelete
  locks _ d := Database.lost d (d.deleteUsers fun u => u.id = id)
  run _ _ _ := (Database.deleteUsers fun u => u.id = id, ())

/-- `UPDATE bauth.users SET disabled_at = $2 WHERE id = $1`, as an operator sends it. -/
def setDisabled (id : Uuid) (disabledAt : Option Time) : Statement sig Unit :=
  update .usersSetDisabled .users (fun _ _ u => u.id = id) (fun _ u => { u with disabledAt })
    fun _ _ => ()

/-- `SELECT id FROM bauth.users WHERE id = $1 FOR NO KEY UPDATE`. -/
def lock (id : Uuid) : Statement sig Unit where
  label := .usersLock
  locks _ d := if d.users.any fun u => u.id = id then [(.user id, .noKeyUpdate)] else []
  run _ _ _ := (fun d => d, ())

end Users

end Bauth
