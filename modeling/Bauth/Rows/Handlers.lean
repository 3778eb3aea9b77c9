import Bauth.Rows.Sent

/-!
# The statements of each handler

`Request.may` names the statements a request can write with. `handle_sends` shows that its
handler sends no others, on any path.
-/

namespace Bauth

open Transaction

/-- The statements that log a user in. -/
def Query.LogsIn (q : Query) : Prop :=
  q = .usersCreate ∨ q = .usersMarkEmailVerified ∨ q = .loginFlowsComplete ∨
    q = .authorizationCodesCreate

/-- The statements that check a confirmation code. -/
def Query.ChecksCode (q : Query) : Prop :=
  (∃ id, q = .confirmationsRecordCodeFailure id) ∨ q = .confirmationsConsumeById

/-- The statements a request can write with. -/
def Request.may (r : Request) (q : Query) : Prop :=
  match r with
  | .createFlow _ => q = .loginFlowsCreate
  | .requestMagicLink .. => q = .loginFlowsCountMagicLinkRequest ∨ q = .magicLinksCreate
  | .confirmMagicLink .. => q = .magicLinksConsume ∨ q.LogsIn
  | .confirmMagicCode .. =>
    (∃ id, q = .magicLinksRecordCodeFailure id) ∨ q = .magicLinksConsumeById ∨ q.LogsIn
  | .token _ =>
    q = .authorizationCodesConsume ∨ q = .sessionsRevokeByAuthorizationCode ∨
      q = .sessionsCreate ∨ q = .refreshTokensCreate ∨ q = .refreshTokensMarkRotated ∨
      (∃ parent id, q = .refreshTokensSupersede parent id) ∨ ∃ id, q = .sessionsRevoke id
  | .revoke _ => q = .sessionsRevokeByRefreshToken
  | .getMe _ | .listSessions _ => False
  | .revokeSession .. => q = .sessionsRevokeForUser
  | .requestConfirmation .. => q = .confirmationsCreate
  | .changeEmail .. => q.ChecksCode ∨ q = .emailChangesCreate
  | .deleteAccount .. => q.ChecksCode ∨ q = .usersDelete
  | .confirmEmailChange .. => q = .emailChangesConsume ∨ q = .usersChangeEmail
  | .purge _ => q = .purgeDelete
  | .setDisabled .. => q = .usersSetDisabled

variable {ε α β : Type}

/-- Every statement the handler may send is among those of `Sent app may`. -/
def Handler.Sends (app : App) (may : Query → Prop) (h : Handler ε α) : Prop :=
  Program.Sends (Sent app may) h.run fun _ => True

/-! ### Rules -/

section Rules

variable {app : App} {may : Query → Prop}

lemma sends_pure (a : α) : Handler.Sends app may (pure a : Handler ε α) := trivial

lemma sends_throw (e : ε) : Handler.Sends app may (throw e : Handler ε α) := trivial

lemma sends_bind {h : Handler ε β} {f : β → Handler ε α} (hh : Handler.Sends app may h)
    (hf : ∀ b, Handler.Sends app may (f b)) : Handler.Sends app may (h >>= f) := by
  simp only [Handler.Sends, ExceptT.run_bind, Program.sends_bind]
  refine hh.mono fun r _ => ?_
  cases r with
  | ok b => exact hf b
  | error e => trivial

lemma sends_perform {p : Program sig α} (hp : p.Sends (Sent app may) fun _ => True) :
    Handler.Sends app may (perform p : Handler ε α) := by
  simp only [Handler.Sends, perform, ExceptT.run_lift, map_eq_pure_bind, Program.sends_bind]
  exact hp.mono fun _ _ => trivial

lemma sends_run {s : Statement sig α} (h : Sent app may s) :
    Handler.Sends app may (run s : Handler ε α) := sends_perform ⟨h, fun _ => trivial⟩

lemma sends_runChecked [FromDbError ε] {s : Statement sig (Except DbError α)}
    (h : Sent app may s) : Handler.Sends app may (runChecked s : Handler ε α) := by
  simp only [Handler.Sends, runChecked, ExceptT.run_mk, Program.sends_bind, Program.sends_query]
  refine ⟨h, fun r => ?_⟩
  cases r <;> trivial

lemma sends_mk_pure (e : Except ε α) :
    Handler.Sends app may (ExceptT.mk (pure e) : Handler ε α) := trivial

lemma sends_clock : Handler.Sends app may (perform Program.clock : Handler ε Time) :=
  sends_perform fun _ => trivial

lemma sends_fresh : Handler.Sends app may (perform Program.fresh : Handler ε Draw) :=
  sends_perform fun _ => trivial

lemma sends_start : Handler.Sends app may (perform Program.start : Handler ε Unit) :=
  sends_perform trivial

lemma sends_finish : Handler.Sends app may (perform Program.finish : Handler ε Unit) :=
  sends_perform trivial

lemma sends_abandon : Handler.Sends app may (perform Program.abandon : Handler ε Unit) :=
  sends_perform trivial

lemma sends_inquire (q : Question) :
    Handler.Sends app may (perform (Program.inquire (S := sig) q) : Handler ε _) :=
  sends_perform fun _ => trivial

lemma sends_signal (e : Event) :
    Handler.Sends app may (perform (Program.signal (S := sig) e) : Handler ε Unit) :=
  sends_perform trivial

end Rules

/-! ### Handlers -/

section Handlers

variable {app : App} {may : Query → Prop}

lemma createFlow_sends (h : may .loginFlowsCreate) (input : Login.CreateFlowRequest) :
    Handler.Sends app may (Login.createFlow app input) := by
  simp only [Login.createFlow, throw_bind]
  split
  · repeat' split
    all_goals try exact sends_throw _
    refine sends_bind sends_clock fun now => ?_
    refine sends_bind (sends_run (.loginFlowsCreate h ..)) fun id => ?_
    exact sends_pure _
  · exact sends_throw _

lemma complete_sends (h : ∀ q : Query, q.LogsIn → may q) (flowId userId : Uuid) :
    Handler.Sends app may (Login.complete app flowId userId) := by
  simp only [Login.complete]
  refine sends_bind (sends_run (.loginFlowsComplete (h _ (by simp [Query.LogsIn])) _)) fun b => ?_
  split
  · exact sends_pure _
  · refine sends_bind sends_fresh fun n => sends_bind sends_clock fun now => ?_
    refine sends_bind (sends_runChecked (.authorizationCodesCreate ?_ ..)) fun _ => sends_pure _
    exact h _ (by simp [Query.LogsIn])

lemma checkLimit_sends (limiter : Limiter) (key : String) :
    Handler.Sends app may (checkLimit limiter key) := by
  refine sends_bind (sends_inquire _) fun wait => ?_
  split
  · exact sends_pure _
  · exact sends_throw _

lemma checkFormat_sends (code : String) : Handler.Sends app may (checkFormat code) := by
  simp only [checkFormat]
  split
  · exact sends_pure _
  · exact sends_throw _

lemma verifyCode_sends (purpose : CodePurpose) (row owner : Uuid) (code : String) (hash : Bytes) :
    Handler.Sends app may (verifyCode app purpose row owner code hash) :=
  sends_bind (sends_signal _) fun _ => sends_pure _

lemma request_sends (hcount : may .loginFlowsCountMagicLinkRequest) (hcreate : may .magicLinksCreate)
    (ip : String) (flowId : Uuid) (email : String) :
    Handler.Sends app may (MagicLink.request app ip flowId email) := by
  simp only [MagicLink.request, throw_bind, bind_assoc]
  refine sends_bind (checkLimit_sends _ _) fun _ => ?_
  split
  · exact sends_throw _
  refine sends_bind (sends_run (.select ..)) fun flow => ?_
  split
  · split
    · exact sends_bind sends_clock fun _ => sends_bind (sends_pure _) fun _ => sends_throw _
    split
    · refine sends_bind (checkLimit_sends _ _) fun _ => sends_bind sends_clock fun now => ?_
      refine sends_bind (sends_run (.loginFlowsCountMagicLinkRequest hcount ..)) fun expiry => ?_
      split
      · refine sends_bind (sends_run (.select ..)) fun user => ?_
        split
        · refine sends_bind sends_fresh fun n => sends_bind sends_fresh fun n' => ?_
          refine sends_bind (sends_runChecked (.magicLinksCreate hcreate ..)) fun address => ?_
          exact sends_bind (sends_signal _) fun _ => sends_pure _
        · exact sends_pure _
      · exact sends_bind sends_clock fun _ => sends_bind (sends_pure _) fun _ => sends_throw _
    · exact sends_throw _
  · exact sends_throw _

lemma account_sends (h : ∀ q : Query, q.LogsIn → may q) (userId : Option Uuid) (email : String) :
    Handler.Sends app may (MagicLink.account app userId email) := by
  simp only [MagicLink.account]
  split
  · exact sends_run (.select ..)
  · refine sends_bind (sends_run (.usersCreate (h _ (by simp [Query.LogsIn])) _)) fun user => ?_
    split
    · exact sends_pure _
    · exact sends_run (.select ..)

lemma logIn_sends (h : ∀ q : Query, q.LogsIn → may q) (flowId : Uuid) (userId : Option Uuid)
    (email : String) (stale : ApiError) :
    Handler.Sends app may (MagicLink.logIn app flowId userId email stale) := by
  simp only [MagicLink.logIn, throw_bind]
  refine sends_bind (account_sends h _ _) fun user => ?_
  split
  · repeat' split
    all_goals try exact sends_throw _
    refine sends_bind (sends_run (.usersMarkEmailVerified ?_ ..)) fun _ => ?_
    · exact h _ (by simp [Query.LogsIn])
    refine sends_bind (complete_sends h _ _) fun response => ?_
    split
    · exact sends_pure _
    · exact sends_throw _
  · exact sends_throw _

lemma confirm_sends (hconsume : may .magicLinksConsume) (h : ∀ q : Query, q.LogsIn → may q)
    (ip token : String) : Handler.Sends app may (MagicLink.confirm app ip token) := by
  simp only [MagicLink.confirm]
  refine sends_bind (checkLimit_sends _ _) fun _ => sends_bind sends_start fun _ => ?_
  refine sends_bind (sends_run (.magicLinksConsume hconsume _)) fun link => ?_
  split
  · refine sends_bind (logIn_sends h ..) fun response => ?_
    exact sends_bind sends_finish fun _ => sends_pure _
  · exact sends_throw _

lemma confirmCode_sends (hfail : ∀ id, may (.magicLinksRecordCodeFailure id))
    (hconsume : may .magicLinksConsumeById) (h : ∀ q : Query, q.LogsIn → may q)
    (ip : String) (flowId : Uuid) (code : String) :
    Handler.Sends app may (MagicLink.confirmCode app ip flowId code) := by
  simp only [MagicLink.confirmCode, throw_bind]
  refine sends_bind (checkLimit_sends _ _) fun _ => sends_bind (checkFormat_sends _) fun _ => ?_
  refine sends_bind sends_start fun _ => sends_bind (sends_perform ?_) fun link => ?_
  · refine ⟨.select .., fun email => ?_⟩
    cases email with
    | none => trivial
    | some email => exact ⟨.magicLinksLockAddress _, fun _ => ⟨.select .., fun _ => trivial⟩⟩
  split
  · refine sends_bind (verifyCode_sends ..) fun right => ?_
    split
    · refine sends_bind (sends_runChecked (.magicLinksRecordCodeFailure _ (hfail _))) fun _ => ?_
      exact sends_bind sends_finish fun _ => sends_throw _
    · refine sends_bind (sends_run (.magicLinksConsumeById hconsume _)) fun _ => ?_
      refine sends_bind (logIn_sends h ..) fun response => ?_
      exact sends_bind sends_finish fun _ => sends_pure _
  · exact sends_throw _

lemma required_sends (value : Option String) (name : String) :
    Handler.Sends app may (OAuth.required value name) := by
  simp only [OAuth.required]
  split
  · exact sends_pure _
  · exact sends_throw _

lemma newRefreshToken_sends (h : may .refreshTokensCreate) (sessionId : Uuid)
    (parentId : Option Uuid) :
    Handler.Sends app may (newRefreshToken app sessionId parentId) := by
  refine sends_bind sends_fresh fun n => ?_
  exact sends_bind (sends_runChecked (.refreshTokensCreate h ..)) fun _ => sends_pure _

lemma issue_sends (keys : SigningKeys) (userId sessionId : Uuid) (client : Client) (now : Time) :
    (issue app keys userId sessionId client now).Sends (Sent app may) fun _ => True := by
  simp only [issue]
  split
  · exact fun _ => trivial
  · trivial

/-- The statements of `POST /oauth/token`. -/
abbrev tokenMay : Query → Prop := Request.may (.token { grantType := "", clientId := "" })

lemma rejectUnusableCode_sends (h : may .sessionsRevokeByAuthorizationCode) (codeHash : Bytes) :
    Handler.Sends app may (OAuth.rejectUnusableCode codeHash) := by
  simp only [OAuth.rejectUnusableCode]
  refine sends_bind (sends_run (.select ..)) fun id => ?_
  split
  · refine sends_bind (sends_perform ?_) fun _ => sends_pure _
    exact ⟨.sessionsRevokeWhere _ (by simp [Query.Revokes]) h _, fun _ => trivial⟩
  · exact sends_pure _

lemma authorizationCode_sends (input : OAuth.TokenRequest) :
    Handler.Sends app tokenMay (OAuth.authorizationCode app input) := by
  simp only [OAuth.authorizationCode, throw_bind]
  refine sends_bind (required_sends ..) fun code => ?_
  refine sends_bind (required_sends ..) fun uri => ?_
  refine sends_bind (required_sends ..) fun verifier => ?_
  split
  · refine sends_bind sends_start fun _ => ?_
    refine sends_bind (sends_run (.authorizationCodesConsume (by simp [Request.may]) _))
      fun consumed => ?_
    split
    · repeat' split
      all_goals try exact sends_throw _
      refine sends_bind (sends_run (.select ..)) fun user => ?_
      split
      · exact sends_throw _
      refine sends_bind (sends_bind sends_clock fun now => ?_) fun session => ?_
      · refine sends_bind (sends_runChecked (.sessionsCreate (by simp [Request.may]) ..)) fun id => ?_
        refine sends_bind (newRefreshToken_sends (by simp [Request.may]) _ _) fun token => ?_
        exact sends_pure _
      refine sends_bind (sends_inquire _) fun keys => sends_bind sends_clock fun now => ?_
      refine sends_bind (sends_perform (issue_sends ..)) fun access => ?_
      split
      · exact sends_bind sends_finish fun _ => sends_pure _
      · exact sends_throw _
    · refine sends_bind sends_abandon fun _ => ?_
      exact sends_bind (rejectUnusableCode_sends (by simp [Request.may]) _) fun _ => sends_throw _
  · exact sends_throw _

/-- The statements of a refresh. -/
def Query.Refreshes (q : Query) : Prop :=
  q = .refreshTokensCreate ∨ q = .refreshTokensMarkRotated ∨
    (∃ parent id, q = .refreshTokensSupersede parent id) ∨ ∃ id, q = .sessionsRevoke id

section Refresh

variable (hmay : ∀ q : Query, q.Refreshes → may q)
include hmay

lemma supersedeEach_sends (parent : Uuid) (ids : List Uuid) :
    (RefreshTokens.supersedeEach parent ids).Sends (Sent app may) fun _ => True := by
  induction ids with
  | nil => trivial
  | cons id ids ih =>
    exact ⟨.refreshTokensSupersede _ _ (hmay _ (.inr (.inr (.inl ⟨_, _, rfl⟩)))), fun _ => ih⟩

lemma isStolen_sends (current : RefreshTokens.RefreshTokenWithSession) (now : Time) :
    (OAuth.isStolen current now).Sends (Sent app may) fun _ => True := by
  simp only [OAuth.isStolen]
  split
  · trivial
  · exact ⟨.refreshTokensMarkRotated (hmay _ (.inr (.inl rfl))) _, fun _ => trivial⟩
  · split
    · trivial
    refine ⟨.select .., fun stolen => ?_⟩
    cases stolen with
    | true => trivial
    | false =>
      change Program.Sends _ (RefreshTokens.supersedeUnusedSuccessors current.id >>= _) _
      rw [Program.sends_bind]
      exact ⟨.select .., fun ids => supersedeEach_sends hmay _ _⟩

lemma sessionsRevoke_sends (id : Uuid) :
    (Sessions.revoke id).Sends (Sent app may) fun _ => True :=
  ⟨.sessionsRevokeWhere _ (by simp [Query.Revokes]) (hmay _ (.inr (.inr (.inr ⟨_, rfl⟩)))) _,
    fun _ => trivial⟩

omit hmay in
lemma findForUpdate_sends (tokenHash : Bytes) :
    (RefreshTokens.findForUpdate tokenHash).Sends (Sent app may) fun _ => True := by
  refine ⟨.select .., fun row => ?_⟩
  cases row with
  | none => trivial
  | some row =>
    refine ⟨.refreshTokensLock _, fun locked => ?_⟩
    cases locked <;> trivial

lemma refreshToken_sends (input : OAuth.TokenRequest) :
    Handler.Sends app may (OAuth.refreshToken app input) := by
  simp only [OAuth.refreshToken, throw_bind]
  refine sends_bind (required_sends ..) fun T => ?_
  split
  · refine sends_bind sends_clock fun now => sends_bind sends_start fun _ => ?_
    refine sends_bind (sends_perform (findForUpdate_sends _)) fun current => ?_
    split
    · repeat' split
      all_goals try exact sends_throw _
      refine sends_bind (sends_perform (isStolen_sends hmay ..)) fun stolen => ?_
      split
      · refine sends_bind (sends_perform (sessionsRevoke_sends hmay _)) fun _ => ?_
        exact sends_bind sends_finish fun _ => sends_throw _
      refine sends_bind (sends_run (.select ..)) fun user => ?_
      split
      · refine sends_bind (sends_perform (sessionsRevoke_sends hmay _)) fun _ => ?_
        exact sends_bind sends_finish fun _ => sends_throw _
      refine sends_bind (newRefreshToken_sends (hmay _ (.inl rfl)) _ _) fun token => ?_
      refine sends_bind (sends_inquire _) fun keys => ?_
      refine sends_bind (sends_perform (issue_sends ..)) fun access => ?_
      split
      · exact sends_bind sends_finish fun _ => sends_pure _
      · exact sends_throw _
    · exact sends_throw _
  · exact sends_throw _

end Refresh

lemma token_sends (input : OAuth.TokenRequest) :
    Handler.Sends app tokenMay (OAuth.token app input) := by
  simp only [OAuth.token]
  repeat' split
  · exact authorizationCode_sends input
  · refine refreshToken_sends (fun q hq => ?_) input
    rcases hq with rfl | rfl | h | h <;> simp [Request.may, *]
  · exact sends_throw _

lemma revoke_sends (h : may .sessionsRevokeByRefreshToken) (input : OAuth.RevokeRequest) :
    Handler.Sends app may (OAuth.revoke app input) := by
  simp only [OAuth.revoke]
  split
  · refine sends_bind (sends_perform ?_) fun _ => sends_pure _
    exact ⟨.sessionsRevokeWhere _ (by simp [Query.Revokes]) h _, fun _ => trivial⟩
  · exact sends_throw _

lemma currentUser_sends (authorization : Option String) :
    Handler.Sends app may (currentUser app authorization) := by
  simp only [currentUser, throw_bind]
  refine sends_bind (sends_inquire _) fun keys => sends_bind sends_clock fun now => ?_
  split
  · refine sends_bind (sends_run (.select ..)) fun session => ?_
    split
    · split
      · exact sends_throw _
      · exact sends_pure _
    · exact sends_throw _
  · exact sends_throw _

lemma confirmEmailChange_sends (hconsume : may .emailChangesConsume)
    (hchange : may .usersChangeEmail) (ip token : String) :
    Handler.Sends app may (EmailChange.confirm app ip token) := by
  simp only [EmailChange.confirm, throw_bind]
  refine sends_bind (checkLimit_sends _ _) fun _ => sends_bind sends_start fun _ => ?_
  refine sends_bind (sends_run (.emailChangesConsume hconsume _)) fun change => ?_
  split
  · refine sends_bind (sends_run (.select ..)) fun user => ?_
    split
    · split
      · exact sends_throw _
      refine sends_bind (sends_run (.usersChangeEmail hchange ..)) fun moved => ?_
      repeat' split
      all_goals try exact sends_throw _
      exact sends_bind sends_finish fun _ => sends_signal _
    · exact sends_throw _
  · exact sends_throw _

lemma get_sends (authorization : Option String) :
    Handler.Sends app may (Me.get app authorization) := by
  simp only [Me.get]
  refine sends_bind (currentUser_sends _) fun user => ?_
  refine sends_bind (sends_run (.select ..)) fun account => ?_
  split
  · exact sends_pure _
  · exact sends_throw _

lemma listSessions_sends (authorization : Option String) :
    Handler.Sends app may (Me.listSessions app authorization) :=
  sends_bind (currentUser_sends _) fun _ =>
    sends_bind (sends_run (.select ..)) fun _ => sends_pure _

lemma revokeSession_sends (h : may .sessionsRevokeForUser) (authorization : Option String)
    (sessionId : Uuid) : Handler.Sends app may (Me.revokeSession app authorization sessionId) := by
  simp only [Me.revokeSession]
  refine sends_bind (currentUser_sends _) fun user => sends_bind (sends_perform ?_) fun revoked => ?_
  · exact ⟨.sessionsRevokeWhere _ (by simp [Query.Revokes]) h _, fun _ => trivial⟩
  split
  · exact sends_throw _
  · exact sends_pure _

lemma requestConfirmation_sends (h : may .confirmationsCreate) (ip : String)
    (authorization : Option String) (action : Me.ConfirmationAction) :
    Handler.Sends app may (Me.requestConfirmation app ip authorization action) := by
  refine sends_bind (currentUser_sends _) fun user => ?_
  refine sends_bind (checkLimit_sends _ _) fun _ => sends_bind (checkLimit_sends _ _) fun _ => ?_
  refine sends_bind sends_fresh fun n => sends_bind sends_clock fun now => ?_
  exact sends_bind (sends_runChecked (.confirmationsCreate h ..)) fun _ => sends_signal _

lemma checkCode_sends (h : ∀ q : Query, q.ChecksCode → may q) (ip : String) (user : CurrentUser)
    (action : Me.ConfirmationAction) (code : String) :
    Handler.Sends app may (Me.checkCode app ip user action code) := by
  simp only [Me.checkCode, throw_bind]
  refine sends_bind (checkLimit_sends _ _) fun _ => sends_bind (checkFormat_sends _) fun _ => ?_
  refine sends_bind sends_start fun _ => sends_bind (sends_perform ?_) fun confirmation => ?_
  · exact ⟨.usersLock _, fun _ => ⟨.select .., fun _ => trivial⟩⟩
  split
  · split
    · exact sends_throw _
    refine sends_bind (verifyCode_sends ..) fun right => ?_
    split
    · refine sends_bind (sends_runChecked (.confirmationsRecordCodeFailure _ ?_)) fun _ => ?_
      · exact h _ (.inl ⟨_, rfl⟩)
      exact sends_bind sends_finish fun _ => sends_throw _
    · refine sends_bind (sends_run (.confirmationsConsumeById (h _ (.inr rfl)) _)) fun _ => ?_
      exact sends_finish
  · exact sends_throw _

lemma changeEmail_sends (h : ∀ q : Query, q.ChecksCode → may q) (hcreate : may .emailChangesCreate)
    (ip : String) (authorization : Option String) (code newEmail : String) :
    Handler.Sends app may (Me.changeEmail app ip authorization code newEmail) := by
  simp only [Me.changeEmail, throw_bind]
  refine sends_bind (currentUser_sends _) fun user => ?_
  repeat' split
  all_goals try exact sends_throw _
  refine sends_bind (sends_mk_pure _) fun page => sends_bind (checkLimit_sends _ _) fun _ => ?_
  refine sends_bind (checkCode_sends h _ _ _ _) fun _ => sends_bind (sends_run (.select ..)) fun u => ?_
  split
  · refine sends_bind sends_fresh fun n => sends_bind sends_clock fun now => ?_
    exact sends_bind (sends_runChecked (.emailChangesCreate hcreate ..)) fun _ => sends_signal _
  · exact sends_pure _

lemma deleteAccount_sends (h : ∀ q : Query, q.ChecksCode → may q) (hdelete : may .usersDelete)
    (ip : String) (authorization : Option String) (code : String) :
    Handler.Sends app may (Me.deleteAccount app ip authorization code) := by
  refine sends_bind (currentUser_sends _) fun user => sends_bind (checkCode_sends h _ _ _ _) fun _ => ?_
  exact sends_bind (sends_run (.usersDelete hdelete _)) fun _ => sends_signal _

end Handlers

/-! ### The purge -/

section Purge

variable {app : App} {may : Query → Prop}

lemma deleteEach_sends {present : Database → Uuid → Bool} {del : Uuid → Database → Database}
    (h : ∀ id, Sent app may (Purge.deleteRow present del id)) (ids : List Uuid) :
    (Purge.deleteEach present del ids).Sends (Sent app may) fun _ => True := by
  induction ids with
  | nil => trivial
  | cons id ids ih =>
    refine ⟨h id, fun deleted => ?_⟩
    change Program.Sends _ (Purge.deleteEach present del ids >>= _) _
    rw [Program.sends_bind]
    exact ih.mono fun _ _ => trivial

lemma deleteBatch_sends {select : Time → Database → List Uuid}
    {present : Database → Uuid → Bool} {del : Uuid → Database → Database}
    (h : ∀ id, Sent app may (Purge.deleteRow present del id)) :
    (Purge.deleteBatch select present del).Sends (Sent app may) fun _ => True := by
  refine ⟨.select .., fun ids => ?_⟩
  change Program.Sends _ (Purge.deleteEach present del ids >>= _) _
  rw [Program.sends_bind]
  exact (deleteEach_sends h ids).mono fun _ _ => trivial

lemma inBatches_sends {batch : Program sig ℕ}
    (h : batch.Sends (Sent app may) fun _ => True) (fuel total : ℕ) :
    (Purge.inBatches batch fuel total).Sends (Sent app may) fun _ => True := by
  induction fuel generalizing total with
  | zero => trivial
  | succ fuel ih =>
    simp only [Purge.inBatches, Program.sends_bind]
    refine h.mono fun deleted _ => ?_
    split
    · trivial
    · exact ih _

lemma purge_sends (h : may .purgeDelete) (fuel : ℕ) :
    (Purge.purge fuel).Sends (Sent app may) fun _ => True := by
  simp only [Purge.purge, Program.sends_bind]
  refine (inBatches_sends (deleteBatch_sends (.purgeLoginFlow h _)) fuel 0).mono fun n _ => ?_
  split
  · rw [Program.sends_bind]
    refine (inBatches_sends (deleteBatch_sends (.purgeEmailChange h _)) fuel 0).mono fun n _ => ?_
    split
    · rw [Program.sends_bind]
      refine (inBatches_sends (deleteBatch_sends (.purgeConfirmation h _)) fuel 0).mono
        fun n _ => ?_
      split
      · rw [Program.sends_bind]
        refine (inBatches_sends (deleteBatch_sends (.purgeSession h _)) fuel 0).mono fun n _ => ?_
        split
        · rw [Program.sends_bind]
          refine (inBatches_sends (deleteBatch_sends (.purgeUser h _)) fuel 0).mono fun n _ => ?_
          split
          · exact ⟨.purgeSigningKeys h, fun _ => trivial⟩
          · trivial
        · trivial
      · trivial
    · trivial
  · trivial

end Purge

/-! ### Every request -/

section handle

variable {app : App} {may : Query → Prop}

lemma apiRoute_sends (body : α → Body) {h : Handler ApiError α} (hh : Handler.Sends app may h) :
    (apiRoute body h).Sends (Sent app may) fun _ => True := by
  simp only [apiRoute, Program.sends_bind]
  refine hh.mono fun r _ => ?_
  cases r <;> trivial

lemma oauthRoute_sends (body : α → Body) {h : Handler OAuthError α}
    (hh : Handler.Sends app may h) : (oauthRoute body h).Sends (Sent app may) fun _ => True := by
  simp only [oauthRoute, Program.sends_bind]
  refine hh.mono fun r _ => ?_
  cases r <;> trivial

end handle

/-- The server writes nothing for a request but through the statements of `Request.may`. -/
theorem handle_sends (app : App) (r : Request) :
    (handle app r).Sends (Sent app r.may) fun _ => True := by
  cases r with
  | createFlow input => exact apiRoute_sends _ (createFlow_sends (by exact rfl) input)
  | requestMagicLink ip flowId email =>
    exact apiRoute_sends _ (request_sends (.inl rfl) (.inr rfl) ip flowId email)
  | confirmMagicLink ip token =>
    exact apiRoute_sends _ (confirm_sends (.inl rfl) (fun _ h => .inr h) ip token)
  | confirmMagicCode ip flowId code =>
    exact apiRoute_sends _ (confirmCode_sends (fun _ => .inl ⟨_, rfl⟩) (.inr (.inl rfl))
      (fun _ h => .inr (.inr h)) ip flowId code)
  | token input => exact oauthRoute_sends _ (token_sends input)
  | revoke input => exact oauthRoute_sends _ (revoke_sends (by exact rfl) input)
  | getMe authorization => exact apiRoute_sends _ (get_sends authorization)
  | listSessions authorization => exact apiRoute_sends _ (listSessions_sends authorization)
  | revokeSession authorization sessionId =>
    exact apiRoute_sends _ (revokeSession_sends (by exact rfl) authorization sessionId)
  | requestConfirmation ip authorization action =>
    exact apiRoute_sends _ (requestConfirmation_sends (by exact rfl) ip authorization action)
  | changeEmail ip authorization code newEmail =>
    exact apiRoute_sends _
      (changeEmail_sends (fun _ h => .inl h) (.inr rfl) ip authorization code newEmail)
  | deleteAccount ip authorization code =>
    exact apiRoute_sends _
      (deleteAccount_sends (fun _ h => .inl h) (.inr rfl) ip authorization code)
  | confirmEmailChange ip token =>
    exact apiRoute_sends _ (confirmEmailChange_sends (.inl rfl) (.inr rfl) ip token)
  | purge fuel =>
    simp only [handle, Program.sends_bind]
    exact (purge_sends (by exact rfl) fuel).mono fun _ _ => trivial
  | setDisabled userId disabledAt => exact ⟨.usersSetDisabled (by exact rfl) _ _, fun _ => trivial⟩

end Bauth
