import Bauth.Server
import Bauth.Transaction.Sends

/-!
# What a statement can do to a row

For each table, the steps a row can take under a statement, named after what they do, and the
rows a statement can insert. `Database.Evolves` gathers them: every statement the server sends
evolves the database in this sense (`Sent.evolves`), whatever happened between the moment it read
and the moment it is applied.
-/

namespace Bauth

open Transaction

/-! ### Steps -/

section Steps

variable (q : Query) (now : Time)

inductive User.Step : User → User → Prop
  | same (u : User) : User.Step u u
  | verify (hq : q = .usersMarkEmailVerified) (u : User) : User.Step u
      { u with emailVerifiedAt := some (u.emailVerifiedAt.getD now), updatedAt := now }
  | move (hq : q = .usersChangeEmail) (email : String) (u : User) : User.Step u
      { u with email, emailVerifiedAt := some now, updatedAt := now }
  | disable (hq : q = .usersSetDisabled) (disabledAt : Option Time) (u : User) : User.Step u
      { u with disabledAt }

inductive LoginFlow.Step : LoginFlow → LoginFlow → Prop
  | same (f : LoginFlow) : LoginFlow.Step f f
  | complete (hq : q = .loginFlowsComplete) (f : LoginFlow) : LoginFlow.Step f
      { f with completedAt := some now }
  | count (hq : q = .loginFlowsCountMagicLinkRequest) (expiresAt : Time) (f : LoginFlow) :
      LoginFlow.Step f { f with magicLinkRequests := f.magicLinkRequests + 1, expiresAt }

inductive MagicLink.Step : MagicLink → MagicLink → Prop
  | same (l : MagicLink) : MagicLink.Step l l
  | consume (hq : q = .magicLinksConsume ∨ q = .magicLinksConsumeById) (l : MagicLink) :
      MagicLink.Step l { l with consumedAt := some now }
  | fail (l : MagicLink) (hq : q = .magicLinksRecordCodeFailure l.id) : MagicLink.Step l
      { l with
        codeFailures := l.codeFailures + 1
        consumedAt := if maxFailuresPerCode ≤ l.codeFailures + 1 then some now else none }

inductive AuthorizationCode.Step : AuthorizationCode → AuthorizationCode → Prop
  | same (c : AuthorizationCode) : AuthorizationCode.Step c c
  | consume (hq : q = .authorizationCodesConsume) (c : AuthorizationCode) :
      AuthorizationCode.Step c { c with consumedAt := some now }

inductive Session.Step : Session → Session → Prop
  | same (s : Session) : Session.Step s s
  | revoke (s : Session) : Session.Step s (s.revoke now)
  /-- Its authorization code was deleted. -/
  | forget (s : Session) : Session.Step s { s with authorizationCodeId := none }

inductive RefreshToken.Step : RefreshToken → RefreshToken → Prop
  | same (r : RefreshToken) : RefreshToken.Step r r
  | rotate (hq : q = .refreshTokensMarkRotated) (r : RefreshToken) : RefreshToken.Step r
      { r with rotatedAt := some now }
  | supersede (parent : Uuid) (r : RefreshToken)
      (hq : q = .refreshTokensSupersede parent r.id) :
      RefreshToken.Step r { r with supersededAt := some now }

inductive EmailChange.Step : EmailChange → EmailChange → Prop
  | same (c : EmailChange) : EmailChange.Step c c
  | consume (hq : q = .emailChangesConsume) (c : EmailChange) : EmailChange.Step c
      { c with consumedAt := some now }

inductive Confirmation.Step : Confirmation → Confirmation → Prop
  | same (c : Confirmation) : Confirmation.Step c c
  | consume (hq : q = .confirmationsConsumeById) (c : Confirmation) : Confirmation.Step c
      { c with consumedAt := some now }
  | fail (c : Confirmation) (hq : q = .confirmationsRecordCodeFailure c.id) : Confirmation.Step c
      { c with
        codeFailures := c.codeFailures + 1
        consumedAt := if maxFailuresPerCode ≤ c.codeFailures + 1 then some now else none }

end Steps

/-! ### New rows -/

section New

variable (app : App) (q : Query) (now : Time) (n : Draw)

def User.New (u : User) : Prop :=
  q = .usersCreate ∧ ∃ email, u =
    { id := app.uuid n, email := app.unicode.normalize email, emailVerifiedAt := none
      disabledAt := none, createdAt := now, updatedAt := now }

def LoginFlow.New (f : LoginFlow) : Prop :=
  q = .loginFlowsCreate ∧ f.id = app.uuid n ∧ f.magicLinkRequests = 0 ∧ f.completedAt = none ∧
    f.createdAt = now

def MagicLink.New (l : MagicLink) : Prop :=
  q = .magicLinksCreate ∧ l.id = app.uuid n ∧ l.codeFailures = 0 ∧ l.consumedAt = none ∧
    l.createdAt = now

def AuthorizationCode.New (c : AuthorizationCode) : Prop :=
  q = .authorizationCodesCreate ∧ c.id = app.uuid n ∧ c.consumedAt = none ∧ c.createdAt = now

def Session.New (s : Session) : Prop :=
  q = .sessionsCreate ∧ s.id = app.uuid n ∧ s.revokedAt = none ∧ s.createdAt = now

def RefreshToken.New (r : RefreshToken) : Prop :=
  q = .refreshTokensCreate ∧ r.id = app.uuid n ∧ r.rotatedAt = none ∧ r.supersededAt = none ∧
    r.createdAt = now

def EmailChange.New (c : EmailChange) : Prop :=
  q = .emailChangesCreate ∧ c.id = app.uuid n ∧ c.consumedAt = none ∧ c.createdAt = now

def Confirmation.New (c : Confirmation) : Prop :=
  q = .confirmationsCreate ∧ c.id = app.uuid n ∧ c.codeFailures = 0 ∧ c.consumedAt = none ∧
    c.createdAt = now

end New

/-- What a statement `q` of a transaction started at `now`, given the draw `n`, can make of the
database. -/
structure Database.Evolves (app : App) (q : Query) (now : Time) (n : Draw) (d d' : Database) :
    Prop where
  users : Transaction.Evolves (User.Step q now) (User.New app q now n) d.users d'.users
  loginFlows : Transaction.Evolves (LoginFlow.Step q now) (LoginFlow.New app q now n)
    d.loginFlows d'.loginFlows
  magicLinks : Transaction.Evolves (MagicLink.Step q now) (MagicLink.New app q now n)
    d.magicLinks d'.magicLinks
  authorizationCodes : Transaction.Evolves (AuthorizationCode.Step q now)
    (AuthorizationCode.New app q now n) d.authorizationCodes d'.authorizationCodes
  sessions : Transaction.Evolves (Session.Step now) (Session.New app q now n)
    d.sessions d'.sessions
  refreshTokens : Transaction.Evolves (RefreshToken.Step q now) (RefreshToken.New app q now n)
    d.refreshTokens d'.refreshTokens
  emailChanges : Transaction.Evolves (EmailChange.Step q now) (EmailChange.New app q now n)
    d.emailChanges d'.emailChanges
  confirmations : Transaction.Evolves (Confirmation.Step q now) (Confirmation.New app q now n)
    d.confirmations d'.confirmations

namespace Database.Evolves

variable {app : App} {q : Query} {now : Time} {n : Draw} {d : Database}

lemma refl : d.Evolves app q now n d where
  users := .refl .same
  loginFlows := .refl .same
  magicLinks := .refl .same
  authorizationCodes := .refl .same
  sessions := .refl .same
  refreshTokens := .refl .same
  emailChanges := .refl .same
  confirmations := .refl .same

lemma deleteSessions (p : Session → Bool) : d.Evolves app q now n (d.deleteSessions p) where
  __ := refl (d := d)
  sessions := .filter _ .same
  refreshTokens := .filter _ .same
  confirmations := .filter _ .same

lemma deleteLoginFlows (p : LoginFlow → Bool) : d.Evolves app q now n (d.deleteLoginFlows p) where
  __ := refl (d := d)
  loginFlows := .filter _ .same
  magicLinks := .filter _ .same
  authorizationCodes := .filter _ .same
  sessions := .update _ _ .same fun s _ _ => .forget s

lemma deleteUsers (p : User → Bool) : d.Evolves app q now n (d.deleteUsers p) where
  users := .filter _ .same
  loginFlows := .refl .same
  magicLinks := .filter _ .same
  authorizationCodes := .filter _ .same
  sessions := by
    refine .filter_map _ _ fun s _ => ?_
    split_ifs
    · exact .forget s
    · exact .same s
  refreshTokens := .filter _ .same
  emailChanges := .filter _ .same
  confirmations := by
    simp only [Database.deleteUsers, Database.deleteAuthorizationCodes, Database.deleteSessions,
      List.filter_filter]
    exact .filter _ .same

end Database.Evolves

end Bauth
