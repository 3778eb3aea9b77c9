import Bauth.Rows.Step

/-!
# The statements of the server

Every statement that a handler or the purge sends, and what each does to the rows. `Sent app may`
are those whose name is among `may`, and those that only read or lock.
-/

namespace Bauth

open Transaction

/-- The statements that revoke sessions. -/
def Query.Revokes (q : Query) : Prop :=
  q = .sessionsRevokeByAuthorizationCode ∨ (∃ id, q = .sessionsRevoke id) ∨
    q = .sessionsRevokeByRefreshToken ∨ q = .sessionsRevokeForUser

/-- The statements of `queries` and of the purge, with any arguments. -/
inductive Sent (app : App) (may : Query → Prop) : {β : Type} → Statement sig β → Prop
  | select {β : Type} (q : Query) (read : Time → Database → β) : Sent app may (.select q read)
  | usersLock (id : Uuid) : Sent app may (Users.lock id)
  | magicLinksLockAddress (email : String) : Sent app may (MagicLinks.lockAddress email)
  | refreshTokensLock (id : Uuid) : Sent app may (RefreshTokens.lock id)
  | usersCreate (h : may .usersCreate) (email : String) : Sent app may (Users.create app email)
  | usersMarkEmailVerified (h : may .usersMarkEmailVerified) (id : Uuid) (email : String) :
      Sent app may (Users.markEmailVerified id email)
  | usersChangeEmail (h : may .usersChangeEmail) (id : Uuid) (fromEmail toEmail : String) :
      Sent app may (Users.changeEmail id fromEmail toEmail)
  | usersDelete (h : may .usersDelete) (id : Uuid) : Sent app may (Users.delete id)
  | usersSetDisabled (h : may .usersSetDisabled) (id : Uuid) (disabledAt : Option Time) :
      Sent app may (Users.setDisabled id disabledAt)
  | loginFlowsCreate (h : may .loginFlowsCreate) (clientId redirectUri codeChallenge : String)
      (state : Option String) (expiresAt : Time) :
      Sent app may (LoginFlows.create app clientId redirectUri codeChallenge state expiresAt)
  | loginFlowsComplete (h : may .loginFlowsComplete) (id : Uuid) :
      Sent app may (LoginFlows.complete id)
  | loginFlowsCountMagicLinkRequest (h : may .loginFlowsCountMagicLinkRequest) (id : Uuid)
      (linkExpiresAt : Time) : Sent app may
        (LoginFlows.countMagicLinkRequest id MagicLink.maxEmailsPerFlow linkExpiresAt)
  | magicLinksCreate (h : may .magicLinksCreate) (flowId : Uuid) (userId : Option Uuid)
      (email : String) (tokenHash codeHash : Bytes) (expiresAt : Time) :
      Sent app may (MagicLinks.create app flowId userId email tokenHash codeHash expiresAt)
  | magicLinksConsume (h : may .magicLinksConsume) (tokenHash : Bytes) :
      Sent app may (MagicLinks.consume tokenHash)
  | magicLinksRecordCodeFailure (id : Uuid) (h : may (.magicLinksRecordCodeFailure id)) :
      Sent app may (MagicLinks.recordCodeFailure id maxFailuresPerCode)
  | magicLinksConsumeById (h : may .magicLinksConsumeById) (id : Uuid) :
      Sent app may (MagicLinks.consumeById id)
  | authorizationCodesCreate (h : may .authorizationCodesCreate) (codeHash : Bytes)
      (flowId userId : Uuid) (expiresAt : Time) :
      Sent app may (AuthorizationCodes.create app codeHash flowId userId expiresAt)
  | authorizationCodesConsume (h : may .authorizationCodesConsume) (codeHash : Bytes) :
      Sent app may (AuthorizationCodes.consume codeHash)
  | sessionsCreate (h : may .sessionsCreate) (userId : Uuid) (clientId : String)
      (authorizationCodeId : Uuid) (expiresAt : Time) :
      Sent app may (Sessions.create app userId clientId authorizationCodeId expiresAt)
  | sessionsRevokeWhere (q : Query) (hq : q.Revokes) (h : may q)
      (p : Database → Session → Bool) :
      Sent app may (Sessions.revokeWhere q p)
  | refreshTokensCreate (h : may .refreshTokensCreate) (sessionId : Uuid) (tokenHash : Bytes)
      (parentId : Option Uuid) : Sent app may (RefreshTokens.create app sessionId tokenHash parentId)
  | refreshTokensMarkRotated (h : may .refreshTokensMarkRotated) (id : Uuid) :
      Sent app may (RefreshTokens.markRotated id)
  | refreshTokensSupersede (parent id : Uuid) (h : may (.refreshTokensSupersede parent id)) :
      Sent app may (RefreshTokens.supersede parent id)
  | emailChangesCreate (h : may .emailChangesCreate) (userId : Uuid) (fromEmail toEmail : String)
      (tokenHash : Bytes) (expiresAt : Time) :
      Sent app may (EmailChanges.create app userId fromEmail toEmail tokenHash expiresAt)
  | emailChangesConsume (h : may .emailChangesConsume) (tokenHash : Bytes) :
      Sent app may (EmailChanges.consume tokenHash)
  | confirmationsCreate (h : may .confirmationsCreate) (userId sessionId : Uuid)
      (action email : String) (codeHash : Bytes) (expiresAt : Time) :
      Sent app may (Confirmations.create app userId sessionId action email codeHash expiresAt)
  | confirmationsRecordCodeFailure (id : Uuid) (h : may (.confirmationsRecordCodeFailure id)) :
      Sent app may (Confirmations.recordCodeFailure id maxFailuresPerCode)
  | confirmationsConsumeById (h : may .confirmationsConsumeById) (id : Uuid) :
      Sent app may (Confirmations.consumeById id)
  | purgeLoginFlow (h : may .purgeDelete) (present : Database → Uuid → Bool) (id : Uuid) :
      Sent app may
        (Purge.deleteRow present (fun id => Database.deleteLoginFlows fun f => f.id = id) id)
  | purgeEmailChange (h : may .purgeDelete) (present : Database → Uuid → Bool) (id : Uuid) :
      Sent app may (Purge.deleteRow present
        (fun id d => { d with emailChanges := d.emailChanges.filter fun c => c.id ≠ id }) id)
  | purgeConfirmation (h : may .purgeDelete) (present : Database → Uuid → Bool) (id : Uuid) :
      Sent app may (Purge.deleteRow present
        (fun id d => { d with confirmations := d.confirmations.filter fun c => c.id ≠ id }) id)
  | purgeSession (h : may .purgeDelete) (present : Database → Uuid → Bool) (id : Uuid) :
      Sent app may
        (Purge.deleteRow present (fun id => Database.deleteSessions fun s => s.id = id) id)
  | purgeUser (h : may .purgeDelete) (present : Database → Uuid → Bool) (id : Uuid) :
      Sent app may
        (Purge.deleteRow present (fun id => Database.deleteUsers fun u => u.id = id) id)
  | purgeSigningKeys (h : may .purgeDelete) : Sent app may Purge.signingKeys

namespace Sent

open Database.Evolves

variable {app : App} {may : Query → Prop} {β : Type} {s : Statement sig β}

/-- Whatever a statement saw when it was sent, it takes the database where it is applied through
the steps of its rows. -/
theorem evolves (h : Sent app may s) (now : Time) (n : Draw) (v d : Database) :
    d.Evolves app s.label now n ((s.run now n v).1 d) := by
  cases h with
  | select q read => exact refl
  | usersLock id => exact refl
  | magicLinksLockAddress email => exact refl
  | refreshTokensLock id => exact refl
  | usersCreate h email =>
    simp only [Users.create]
    split_ifs
    · exact refl
    · exact { refl with users := .append .same ⟨rfl, email, rfl⟩ }
  | usersMarkEmailVerified h id email =>
    exact { refl with users := .update _ _ .same fun u _ _ => .verify rfl u }
  | usersChangeEmail h id fromEmail toEmail =>
    simp only [Users.changeEmail]
    split_ifs
    · exact refl
    · exact { refl with users := .update _ _ .same fun u _ _ => .move rfl toEmail u }
  | usersDelete h id => exact deleteUsers _
  | usersSetDisabled h id disabledAt =>
    exact { refl with users := .update _ _ .same fun u _ _ => .disable rfl disabledAt u }
  | loginFlowsCreate h clientId redirectUri codeChallenge state expiresAt =>
    exact { refl with loginFlows := .append .same ⟨rfl, rfl, rfl, rfl, rfl⟩ }
  | loginFlowsComplete h id =>
    exact { refl with loginFlows := .update _ _ .same fun f _ _ => .complete rfl f }
  | loginFlowsCountMagicLinkRequest h id linkExpiresAt =>
    exact { refl with loginFlows := .update _ _ .same fun f _ _ => .count rfl _ f }
  | magicLinksCreate h flowId userId email tokenHash codeHash expiresAt =>
    simp only [MagicLinks.create]
    split_ifs
    · exact refl
    · exact { refl with magicLinks := .append .same ⟨rfl, rfl, rfl, rfl, rfl⟩ }
    · exact refl
  | magicLinksConsume h tokenHash =>
    exact { refl with magicLinks := .update _ _ .same fun l _ _ => .consume (.inl rfl) l }
  | magicLinksRecordCodeFailure id h =>
    refine { refl with magicLinks := .update _ _ .same fun l _ hl => .fail l ?_ }
    obtain ⟨l₀, -, hl₀, hid⟩ := mem_hit.mp hl
    simp only [decide_eq_true_eq] at hl₀
    exact congrArg _ (hl₀.symm.trans hid)
  | magicLinksConsumeById h id =>
    exact { refl with magicLinks := .update _ _ .same fun l _ _ => .consume (.inr rfl) l }
  | authorizationCodesCreate h codeHash flowId userId expiresAt =>
    simp only [AuthorizationCodes.create]
    split_ifs
    · exact refl
    · exact { refl with authorizationCodes := .append .same ⟨rfl, rfl, rfl, rfl⟩ }
    · exact refl
  | authorizationCodesConsume h codeHash =>
    exact { refl with authorizationCodes := .update _ _ .same fun c _ _ => .consume rfl c }
  | sessionsCreate h userId clientId authorizationCodeId expiresAt =>
    simp only [Sessions.create]
    split_ifs
    · exact refl
    · exact { refl with sessions := .append .same ⟨rfl, rfl, rfl, rfl⟩ }
    · exact refl
  | sessionsRevokeWhere q hq h p =>
    exact { refl with sessions := .update _ _ .same fun s _ _ => .revoke s }
  | refreshTokensCreate h sessionId tokenHash parentId =>
    simp only [RefreshTokens.create]
    split_ifs
    · exact refl
    · exact { refl with refreshTokens := .append .same ⟨rfl, rfl, rfl, rfl, rfl⟩ }
    · exact refl
  | refreshTokensMarkRotated h id =>
    exact { refl with refreshTokens := .update _ _ .same fun r _ _ => .rotate rfl r }
  | refreshTokensSupersede parent id h =>
    refine { refl with
      refreshTokens := .update _ _ .same fun r _ hr => .supersede parent r ?_ }
    obtain ⟨r₀, -, hr₀, hid⟩ := mem_hit.mp hr
    simp only [Bool.and_eq_true, decide_eq_true_eq] at hr₀
    exact congrArg _ (hr₀.1.1.symm.trans hid)
  | emailChangesCreate h userId fromEmail toEmail tokenHash expiresAt =>
    simp only [EmailChanges.create]
    split_ifs
    · exact refl
    · exact { refl with emailChanges := .append .same ⟨rfl, rfl, rfl, rfl⟩ }
    · exact refl
  | emailChangesConsume h tokenHash =>
    exact { refl with emailChanges := .update _ _ .same fun c _ _ => .consume rfl c }
  | confirmationsCreate h userId sessionId action email codeHash expiresAt =>
    simp only [Confirmations.create]
    split_ifs
    · exact { refl with confirmations := .append .same ⟨rfl, rfl, rfl, rfl, rfl⟩ }
    · exact refl
  | confirmationsRecordCodeFailure id h =>
    refine { refl with confirmations := .update _ _ .same fun c _ hc => .fail c ?_ }
    obtain ⟨c₀, -, hc₀, hid⟩ := mem_hit.mp hc
    simp only [decide_eq_true_eq] at hc₀
    exact congrArg _ (hc₀.symm.trans hid)
  | confirmationsConsumeById h id =>
    exact { refl with confirmations := .update _ _ .same fun c _ _ => .consume rfl c }
  | purgeLoginFlow h present id => exact Purge.deleteRow_cases (deleteLoginFlows _) refl
  | purgeEmailChange h present id =>
    exact Purge.deleteRow_cases { refl (d := d) with emailChanges := .filter _ .same } refl
  | purgeConfirmation h present id =>
    exact Purge.deleteRow_cases { refl (d := d) with confirmations := .filter _ .same } refl
  | purgeSession h present id => exact Purge.deleteRow_cases (deleteSessions _) refl
  | purgeUser h present id => exact Purge.deleteRow_cases (deleteUsers _) refl
  | purgeSigningKeys h => exact { refl with }

/-- A statement not among `may` writes nothing. -/
theorem may_or_reads (h : Sent app may s) :
    may s.label ∨ ∀ now n v d, (s.run now n v).1 d = d := by
  cases h <;> first
    | exact .inl ‹_›
    | exact .inr fun _ _ _ _ => rfl

end Sent

end Bauth
