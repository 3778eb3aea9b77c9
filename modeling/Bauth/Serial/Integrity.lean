import Bauth.Transaction.References
import Bauth.Alone.Served

/-!
# References in the database

The foreign keys of the migrations, which every statement of the server keeps: the rows it inserts
refer to rows that are there, and what a deletion leaves refers to nothing that is gone.
-/

namespace Bauth

open Transaction

/-- Every foreign key of the schema refers to a row. -/
structure Database.Linked (d : Database) : Prop where
  linkFlow : References (fun l => some l.flowId) LoginFlow.id d.magicLinks d.loginFlows
  linkUser : References MagicLink.userId User.id d.magicLinks d.users
  codeFlow : References (fun c => some c.flowId) LoginFlow.id d.authorizationCodes d.loginFlows
  codeUser : References (fun c => some c.userId) User.id d.authorizationCodes d.users
  sessionUser : References (fun s => some s.userId) User.id d.sessions d.users
  sessionCode :
    References Session.authorizationCodeId AuthorizationCode.id d.sessions d.authorizationCodes
  tokenSession : References (fun r => some r.sessionId) Session.id d.refreshTokens d.sessions
  tokenParent : References RefreshToken.parentId RefreshToken.id d.refreshTokens d.refreshTokens
  changeUser : References (fun c => some c.userId) User.id d.emailChanges d.users
  confirmationUser : References (fun c => some c.userId) User.id d.confirmations d.users
  confirmationSession :
    References (fun c => some c.sessionId) Session.id d.confirmations d.sessions

namespace Database.Linked

variable {d : Database}

lemma empty : ({} : Database).Linked := by
  constructor <;> exact .nil

/-! ### Updates -/

lemma updateUsers (h : d.Linked) (p : User → Bool) (set : User → User)
    (hset : ∀ u, (set u).id = u.id) : { d with users := updateWhere p set d.users }.Linked :=
  { h with
    linkUser := h.linkUser.updateTargets p set hset
    codeUser := h.codeUser.updateTargets p set hset
    sessionUser := h.sessionUser.updateTargets p set hset
    changeUser := h.changeUser.updateTargets p set hset
    confirmationUser := h.confirmationUser.updateTargets p set hset }

lemma updateFlows (h : d.Linked) (p : LoginFlow → Bool) (set : LoginFlow → LoginFlow)
    (hset : ∀ f, (set f).id = f.id) :
    { d with loginFlows := updateWhere p set d.loginFlows }.Linked :=
  { h with
    linkFlow := h.linkFlow.updateTargets p set hset
    codeFlow := h.codeFlow.updateTargets p set hset }

lemma updateLinks (h : d.Linked) (p : MagicLink → Bool) (set : MagicLink → MagicLink)
    (hset : ∀ l, (set l).flowId = l.flowId ∧ (set l).userId = l.userId) :
    { d with magicLinks := updateWhere p set d.magicLinks }.Linked :=
  { h with
    linkFlow := h.linkFlow.updateRows p set fun l _ hk => (hset l).1 ▸ hk
    linkUser := h.linkUser.updateRows p set fun l _ hk => (hset l).2 ▸ hk }

lemma updateCodes (h : d.Linked) (p : AuthorizationCode → Bool)
    (set : AuthorizationCode → AuthorizationCode)
    (hset : ∀ c, (set c).id = c.id ∧ (set c).flowId = c.flowId ∧ (set c).userId = c.userId) :
    { d with authorizationCodes := updateWhere p set d.authorizationCodes }.Linked :=
  { h with
    codeFlow := h.codeFlow.updateRows p set fun c _ hk => (hset c).2.1 ▸ hk
    codeUser := h.codeUser.updateRows p set fun c _ hk => (hset c).2.2 ▸ hk
    sessionCode := h.sessionCode.updateTargets p set fun c => (hset c).1 }

lemma updateSessions (h : d.Linked) (p : Session → Bool) (set : Session → Session)
    (hset : ∀ s, (set s).id = s.id ∧ (set s).userId = s.userId)
    (hcode : ∀ s, ∀ k ∈ (set s).authorizationCodeId, k ∈ s.authorizationCodeId) :
    { d with sessions := updateWhere p set d.sessions }.Linked :=
  { h with
    sessionUser := h.sessionUser.updateRows p set fun s _ hk => (hset s).2 ▸ hk
    sessionCode := h.sessionCode.updateRows p set hcode
    tokenSession := h.tokenSession.updateTargets p set fun s => (hset s).1
    confirmationSession := h.confirmationSession.updateTargets p set fun s => (hset s).1 }

lemma updateTokens (h : d.Linked) (p : RefreshToken → Bool) (set : RefreshToken → RefreshToken)
    (hset : ∀ r, (set r).id = r.id ∧ (set r).sessionId = r.sessionId ∧
      (set r).parentId = r.parentId) :
    { d with refreshTokens := updateWhere p set d.refreshTokens }.Linked :=
  { h with
    tokenSession := h.tokenSession.updateRows p set fun r _ hk => (hset r).2.1 ▸ hk
    tokenParent := (h.tokenParent.updateRows p set fun r _ hk => (hset r).2.2 ▸ hk).updateTargets p
      set fun r => (hset r).1 }

lemma updateChanges (h : d.Linked) (p : EmailChange → Bool) (set : EmailChange → EmailChange)
    (hset : ∀ c, (set c).userId = c.userId) :
    { d with emailChanges := updateWhere p set d.emailChanges }.Linked :=
  { h with changeUser := h.changeUser.updateRows p set fun c _ hk => hset c ▸ hk }

lemma updateConfirmations (h : d.Linked) (p : Confirmation → Bool)
    (set : Confirmation → Confirmation)
    (hset : ∀ c, (set c).userId = c.userId ∧ (set c).sessionId = c.sessionId) :
    { d with confirmations := updateWhere p set d.confirmations }.Linked :=
  { h with
    confirmationUser := h.confirmationUser.updateRows p set fun c _ hk => (hset c).1 ▸ hk
    confirmationSession := h.confirmationSession.updateRows p set fun c _ hk => (hset c).2 ▸ hk }

/-! ### Deletions -/

lemma deleteSessions (h : d.Linked) (p : Session → Bool) : (d.deleteSessions p).Linked :=
  { h with
    sessionUser := h.sessionUser.filter _
    sessionCode := h.sessionCode.filter _
    tokenSession := by
      refine (h.tokenSession.cascade p).mono (fun r hr k hk => ?_) fun t ht => ⟨t, ht, rfl⟩
      obtain ⟨hr, hkept⟩ := List.mem_filter.mp hr
      refine ⟨r, List.mem_filter.mpr ⟨hr, ?_⟩, hk⟩
      rw [Bool.not_eq_true', ← Bool.not_eq_true] at hkept ⊢
      exact fun hgone => hkept (cascades_of_hit hgone)
    tokenParent := h.tokenParent.cascadeSelf fun _ _ hparent => decide_eq_true hparent
    confirmationUser := h.confirmationUser.filter _
    confirmationSession := h.confirmationSession.cascade p }

lemma deleteAuthorizationCodes (h : d.Linked) (p : AuthorizationCode → Bool) :
    (d.deleteAuthorizationCodes p).Linked :=
  { h.updateSessions (fun s => s.authorizationCodeId.any fun id =>
      d.authorizationCodes.any fun c => c.id = id && p c)
      (fun s => { s with authorizationCodeId := none }) (fun _ => ⟨rfl, rfl⟩) (by simp) with
    codeFlow := h.codeFlow.filter _
    codeUser := h.codeUser.filter _
    sessionCode := h.sessionCode.forget p (fun s => { s with authorizationCodeId := none })
      fun _ => rfl }

lemma deleteLoginFlows (h : d.Linked) (p : LoginFlow → Bool) : (d.deleteLoginFlows p).Linked := by
  have hcodes := h.deleteAuthorizationCodes fun c =>
    d.loginFlows.any fun f => f.id = c.flowId && p f
  exact { hcodes with
    linkFlow := h.linkFlow.cascade p
    linkUser := h.linkUser.filter _
    codeFlow := h.codeFlow.cascade p }

lemma deleteUsers (h : d.Linked) (p : User → Bool) : (d.deleteUsers p).Linked := by
  let gone := fun id => d.users.any fun u => u.id = id && p u
  -- the rows that are deleted before the codes and the sessions go
  have hrows : { d with
      magicLinks := d.magicLinks.filter fun l => !l.userId.any gone
      emailChanges := d.emailChanges.filter fun c => !gone c.userId
      confirmations := d.confirmations.filter fun c => !gone c.userId }.Linked :=
    { h with
      linkFlow := h.linkFlow.filter _
      linkUser := h.linkUser.filter _
      changeUser := h.changeUser.filter _
      confirmationUser := h.confirmationUser.filter _
      confirmationSession := h.confirmationSession.filter _ }
  have hrest := (hrows.deleteAuthorizationCodes fun c => gone c.userId).deleteSessions
    fun s => gone s.userId
  exact { hrest with
    linkUser := h.linkUser.cascade p
    codeUser := h.codeUser.cascade p
    sessionUser := ((h.sessionUser.updateRows (fun s => s.authorizationCodeId.any fun id =>
      d.authorizationCodes.any fun c => c.id = id && gone c.userId)
      (fun s => { s with authorizationCodeId := none }) fun _ _ hk => hk).cascade p)
    changeUser := h.changeUser.cascade p
    confirmationUser := (h.confirmationUser.cascade p).filter _ }

end Database.Linked

/-! ### Every statement -/

section Statements

variable {app : App} {may : Query → Prop} {β : Type} {st : Statement sig β} {d : Database}

/-- A statement that sees what is stored keeps every reference. -/
theorem Sent.linked (hst : Sent app may st) (now : Time) (n : Draw) (h : d.Linked) :
    ((st.run now n d).1 d).Linked := by
  cases hst with
  | select q read => exact h
  | usersLock id => exact h
  | magicLinksLockAddress email => exact h
  | refreshTokensLock id => exact h
  | usersCreate hq email =>
    simp only [Users.create]
    split_ifs
    · exact h
    · exact { h with
        linkUser := h.linkUser.appendTargets _
        codeUser := h.codeUser.appendTargets _
        sessionUser := h.sessionUser.appendTargets _
        changeUser := h.changeUser.appendTargets _
        confirmationUser := h.confirmationUser.appendTargets _ }
  | usersMarkEmailVerified hq id email => exact h.updateUsers _ _ fun _ => rfl
  | usersChangeEmail hq id fromEmail toEmail =>
    simp only [Users.changeEmail]
    split_ifs
    · exact h
    · exact h.updateUsers _ _ fun _ => rfl
  | usersDelete hq id => exact h.deleteUsers _
  | usersSetDisabled hq id disabledAt => exact h.updateUsers _ _ fun _ => rfl
  | loginFlowsCreate hq clientId redirectUri codeChallenge state expiresAt =>
    exact { h with
      linkFlow := h.linkFlow.appendTargets _
      codeFlow := h.codeFlow.appendTargets _ }
  | loginFlowsComplete hq id => exact h.updateFlows _ _ fun _ => rfl
  | loginFlowsCountMagicLinkRequest hq id linkExpiresAt => exact h.updateFlows _ _ fun _ => rfl
  | magicLinksCreate hq flowId userId email tokenHash codeHash expiresAt =>
    simp only [MagicLinks.create]
    split_ifs with hunique hrefs
    · exact h
    · simp only [Bool.and_eq_true, List.any_eq_true, decide_eq_true_eq, Option.all_eq_true] at hrefs
      exact { h with
        linkFlow := h.linkFlow.append (by simpa using hrefs.1)
        linkUser := h.linkUser.append (by simpa using hrefs.2) }
    · exact h
  | magicLinksConsume hq tokenHash => exact h.updateLinks _ _ fun _ => ⟨rfl, rfl⟩
  | magicLinksRecordCodeFailure id hq => exact h.updateLinks _ _ fun _ => ⟨rfl, rfl⟩
  | magicLinksConsumeById hq id => exact h.updateLinks _ _ fun _ => ⟨rfl, rfl⟩
  | authorizationCodesCreate hq codeHash flowId userId expiresAt =>
    simp only [AuthorizationCodes.create]
    split_ifs with hunique hrefs
    · exact h
    · simp only [Bool.and_eq_true, List.any_eq_true, decide_eq_true_eq] at hrefs
      exact { h with
        codeFlow := h.codeFlow.append (by simpa using hrefs.1)
        codeUser := h.codeUser.append (by simpa using hrefs.2)
        sessionCode := h.sessionCode.appendTargets _ }
    · exact h
  | authorizationCodesConsume hq codeHash => exact h.updateCodes _ _ fun _ => ⟨rfl, rfl, rfl⟩
  | sessionsCreate hq userId clientId authorizationCodeId expiresAt =>
    simp only [Sessions.create]
    split_ifs with hunique hrefs
    · exact h
    · simp only [Bool.and_eq_true, List.any_eq_true, decide_eq_true_eq] at hrefs
      exact { h with
        sessionUser := h.sessionUser.append (by simpa using hrefs.1)
        sessionCode := h.sessionCode.append (by simpa using hrefs.2)
        tokenSession := h.tokenSession.appendTargets _
        confirmationSession := h.confirmationSession.appendTargets _ }
    · exact h
  | sessionsRevokeWhere q hq hmay p =>
    exact h.updateSessions _ _ (fun _ => ⟨rfl, rfl⟩) fun _ _ hk => hk
  | refreshTokensCreate hq sessionId tokenHash parentId =>
    simp only [RefreshTokens.create]
    split_ifs with hunique hrefs
    · exact h
    · simp only [Bool.and_eq_true, List.any_eq_true, decide_eq_true_eq] at hrefs
      simp only [Option.all_eq_true, List.any_eq_true, decide_eq_true_eq] at hrefs
      exact { h with
        tokenSession := h.tokenSession.append (by simpa using hrefs.1)
        tokenParent := (h.tokenParent.append hrefs.2).appendTargets _ }
    · exact h
  | refreshTokensMarkRotated hq id => exact h.updateTokens _ _ fun _ => ⟨rfl, rfl, rfl⟩
  | refreshTokensSupersede parent id hq => exact h.updateTokens _ _ fun _ => ⟨rfl, rfl, rfl⟩
  | emailChangesCreate hq userId fromEmail toEmail tokenHash expiresAt =>
    simp only [EmailChanges.create]
    split_ifs with hunique hrefs
    · exact h
    · simp only [List.any_eq_true, decide_eq_true_eq] at hrefs
      exact { h with changeUser := h.changeUser.append (by simpa using hrefs) }
    · exact h
  | emailChangesConsume hq tokenHash => exact h.updateChanges _ _ fun _ => rfl
  | confirmationsCreate hq userId sessionId action email codeHash expiresAt =>
    simp only [Confirmations.create]
    split_ifs with hrefs
    · simp only [Bool.and_eq_true, List.any_eq_true, decide_eq_true_eq] at hrefs
      exact { h with
        confirmationUser := h.confirmationUser.append (by simpa using hrefs.1)
        confirmationSession := h.confirmationSession.append (by simpa using hrefs.2) }
    · exact h
  | confirmationsRecordCodeFailure id hq => exact h.updateConfirmations _ _ fun _ => ⟨rfl, rfl⟩
  | confirmationsConsumeById hq id => exact h.updateConfirmations _ _ fun _ => ⟨rfl, rfl⟩
  | purgeLoginFlow hq present id => exact Purge.deleteRow_cases (h.deleteLoginFlows _) h
  | purgeEmailChange hq present id =>
    exact Purge.deleteRow_cases (P := Database.Linked)
      { h with changeUser := h.changeUser.filter _ } h
  | purgeConfirmation hq present id =>
    exact Purge.deleteRow_cases (P := Database.Linked)
      { h with
        confirmationUser := h.confirmationUser.filter _
        confirmationSession := h.confirmationSession.filter _ } h
  | purgeSession hq present id => exact Purge.deleteRow_cases (h.deleteSessions _) h
  | purgeUser hq present id => exact Purge.deleteRow_cases (h.deleteUsers _) h
  | purgeSigningKeys hq => exact { h with }

end Statements

/-- Every foreign key refers to a row in every reachable state. -/
theorem Reachable.linked {app : App} {s : Server} (hs : Reachable app s) : s.db.Linked := by
  refine hs.invariant (P := fun s => s.db.Linked) (fun _ => .empty) fun p hp _ h => ?_
  rw [hp.serve]
  have hkeeps : ∃ _ : ℕ, (serve app p.time p.reply p.request p.before).after.db.Linked :=
    Program.serve_keeps (J := fun _ (d : Database) => d.Linked) (fun _ _ h => h)
      (fun _ hst _ _ hd => hst.linked _ _ hd) (handle_sends app p.request) h
  exact hkeeps.choose_spec

end Bauth
