import Bauth.Model.Server

/-!
# Statements over the database

The lock each kind of statement takes on a row, as PostgreSQL takes it: `UPDATE` of plain columns
and `FOR NO KEY UPDATE` exclude each other, `DELETE`, `FOR UPDATE` and updates of a unique column
exclude everything, and an `INSERT` shares the key of the rows it references. Inserting an address
locks that value of the unique index, and `pg_advisory_xact_lock` locks its key.
-/

namespace Bauth

open Transaction

inductive LockMode where
  | keyShare
  | noKeyUpdate
  | update
  deriving DecidableEq, Repr

def LockMode.conflict : LockMode → LockMode → Bool
  | keyShare, keyShare | keyShare, noKeyUpdate | noKeyUpdate, keyShare => false
  | _, _ => true

/-- The rows and keys a transaction can lock. -/
inductive Locked where
  | user (id : Uuid)
  | loginFlow (id : Uuid)
  | magicLink (id : Uuid)
  | authorizationCode (id : Uuid)
  | session (id : Uuid)
  | refreshToken (id : Uuid)
  | emailChange (id : Uuid)
  | confirmation (id : Uuid)
  | signingKey (id : Uuid)
  | userEmail (email : String)
  | magicCode (email : String)
  deriving DecidableEq, Repr

abbrev RowLock := Locked × LockMode

def RowLock.conflict (a b : RowLock) : Bool := a.1 = b.1 && a.2.conflict b.2

lemma RowLock.conflict_comm (a b : RowLock) : RowLock.conflict a b = RowLock.conflict b a := by
  obtain ⟨r, m⟩ := a
  obtain ⟨r', m'⟩ := b
  by_cases h : r = r'
  · subst h
    cases m <;> cases m' <;> simp [RowLock.conflict, LockMode.conflict]
  · simp [RowLock.conflict, h, Ne.symm h]

/-- The queries, named after their functions; a query on one row carries that row's identifier
where a result below speaks of the statement. -/
inductive Query where
  | usersCreate
  | usersFindByEmail
  | usersFindById
  | usersMarkEmailVerified
  | usersChangeEmail
  | usersDelete
  | usersSetDisabled
  | usersLock
  | loginFlowsCreate
  | loginFlowsComplete
  | loginFlowsFindPendingMagicLinkFlow
  | loginFlowsCountMagicLinkRequest
  | magicLinksCreate
  | magicLinksConsume
  | magicLinksNewestEmail
  | magicLinksLockAddress
  | magicLinksFindCodeCandidate
  | magicLinksRecordCodeFailure (id : Uuid)
  | magicLinksConsumeById
  | authorizationCodesCreate
  | authorizationCodesConsume
  | authorizationCodesFindConsumed
  | sessionsCreate
  | sessionsRevokeByAuthorizationCode
  | sessionsRevoke (id : Uuid)
  | sessionsRevokeByRefreshToken
  | sessionsFindAuthenticated
  | sessionsListActiveForUser
  | sessionsRevokeForUser
  | refreshTokensCreate
  | refreshTokensFind
  | refreshTokensLock (id : Uuid)
  | refreshTokensMarkRotated
  | refreshTokensHasUsedSuccessor
  | refreshTokensUnusedSuccessors (parent : Uuid)
  | refreshTokensSupersede (parent id : Uuid)
  | emailChangesCreate
  | emailChangesConsume
  | confirmationsCreate
  | confirmationsFindCodeCandidate
  | confirmationsRecordCodeFailure (id : Uuid)
  | confirmationsConsumeById
  | purgeSelect
  | purgeDelete
  deriving DecidableEq

/-- What the handlers are programs over. -/
abbrev sig : Signature where
  State := Database
  Lock := RowLock
  conflict := RowLock.conflict
  Label := Query
  Event := Event
  Question := Question
  Reply := Reply

/-! ### Tables and their updates -/

/-- A table of the schema: where its rows are, and how they are identified and locked. -/
structure Table (ρ : Type) where
  rows : Database → List ρ
  setRows : List ρ → Database → Database
  id : ρ → Uuid
  locked : Uuid → Locked

namespace Table

def users : Table User where
  rows d := d.users
  setRows rows d := { d with users := rows }
  id := User.id
  locked := .user

def loginFlows : Table LoginFlow where
  rows d := d.loginFlows
  setRows rows d := { d with loginFlows := rows }
  id := LoginFlow.id
  locked := .loginFlow

def magicLinks : Table MagicLink where
  rows d := d.magicLinks
  setRows rows d := { d with magicLinks := rows }
  id := MagicLink.id
  locked := .magicLink

def authorizationCodes : Table AuthorizationCode where
  rows d := d.authorizationCodes
  setRows rows d := { d with authorizationCodes := rows }
  id := AuthorizationCode.id
  locked := .authorizationCode

def sessions : Table Session where
  rows d := d.sessions
  setRows rows d := { d with sessions := rows }
  id := Session.id
  locked := .session

def refreshTokens : Table RefreshToken where
  rows d := d.refreshTokens
  setRows rows d := { d with refreshTokens := rows }
  id := RefreshToken.id
  locked := .refreshToken

def emailChanges : Table EmailChange where
  rows d := d.emailChanges
  setRows rows d := { d with emailChanges := rows }
  id := EmailChange.id
  locked := .emailChange

def confirmations : Table Confirmation where
  rows d := d.confirmations
  setRows rows d := { d with confirmations := rows }
  id := Confirmation.id
  locked := .confirmation

/-- Apply `set` to the rows with these identifiers. -/
def modify {ρ : Type} (t : Table ρ) (ids : List Uuid) (set : ρ → ρ) (d : Database) : Database :=
  t.setRows (updateWhere (fun r => ids.contains (t.id r)) set (t.rows d)) d

end Table

/-- `UPDATE t SET set WHERE p RETURNING answer`. The statement locks the rows it finds, and
changes them where it writes; the answer is computed from the rows before the change. -/
def update {ρ β : Type} (label : Query) (t : Table ρ) (p : Time → Database → ρ → Bool)
    (set : Time → ρ → ρ) (answer : Database → List ρ → β) : Statement sig β where
  label := label
  locks now d := ((t.rows d).filter (p now d)).map fun r => (t.locked (t.id r), .noKeyUpdate)
  run now _ d :=
    let hit := (t.rows d).filter (p now d)
    (t.modify (hit.map t.id) (set now), answer d hit)

/-! ### Handlers -/

/-- A handler answers, or fails with an error that drops its open transaction. -/
abbrev Handler (ε α : Type) := ExceptT ε (Program sig) α

/-- Errors a refused statement turns into (`From<sqlx::Error>`). -/
class FromDbError (ε : Type) where
  fromDbError : DbError → ε

instance : FromDbError ApiError := ⟨fun _ => .internal⟩

instance : FromDbError OAuthError := ⟨fun _ => .serverError⟩

section Handler

variable {ε α β : Type}

/-- Send a statement. -/
def run (s : Statement sig α) : Handler ε α := ExceptT.lift (Program.query s)

/-- Send a statement that the database may refuse; a refusal is the handler's error. -/
def runChecked [FromDbError ε] (s : Statement sig (Except DbError α)) : Handler ε α :=
  ExceptT.mk do
    match ← Program.query s with
    | .ok a => pure (.ok a)
    | .error e => pure (.error (FromDbError.fromDbError e))

/-- Lift an operation that cannot fail. -/
def perform (p : Program sig α) : Handler ε α := ExceptT.lift p

/-- What follows an error is not run. -/
lemma throw_bind (e : ε) (f : α → Handler ε β) : (throw e >>= f) = (throw e : Handler ε β) := rfl

end Handler

end Bauth
