import Bauth.Alone.Outcome
import Bauth.Serial.Script

/-!
# Refused requests

A request answered with an error other than a 5xx leaves the database as it was, but for the marks
it leaves on purpose: a wrong code is counted, and the session behind a replayed code, a stolen
refresh token or a disabled account is revoked.
-/

namespace Bauth

open Transaction

/-! ### The marks of a refused request -/

namespace Database

variable (d : Database) (now : Time)

/-- One more wrong code on a link, consumed at the limit. -/
def countLinkFailure (id : Uuid) : Database :=
  { d with
    magicLinks := updateWhere (fun l => l.id = id)
      (fun l => { l with
        codeFailures := l.codeFailures + 1
        consumedAt := if l.codeFailures + 1 = maxFailuresPerCode then some now else l.consumedAt })
      d.magicLinks }

/-- One more wrong code on a confirmation, consumed at the limit. -/
def countConfirmationFailure (id : Uuid) : Database :=
  { d with
    confirmations := updateWhere (fun c => c.id = id)
      (fun c => { c with
        codeFailures := c.codeFailures + 1
        consumedAt := if c.codeFailures + 1 = maxFailuresPerCode then some now else c.consumedAt })
      d.confirmations }

end Database

/-- The refusals that leave a mark, and the mark: what a request refused with this error makes of the
database `d`. -/
inductive Request.Marks (app : App) (env : Program.Env sig) (d : Database) :
    Request → Failure → Database → Prop
  | wrongMagicCode {ip code : String} {flowId : Uuid} {l : MagicLink}
      (hl : d.Candidate flowId env.now l)
      (hwrong : app.verifyCode app.magicLinkKey flowId code l.codeHash = false) :
      Marks app env d (.confirmMagicCode ip flowId code) (.api .invalidCode)
        (d.countLinkFailure env.now l.id)
  | wrongChangeCode {ip code newEmail : String} {authorization : Option String}
      {user : CurrentUser} {c : Confirmation} (huser : Authenticated app env authorization d user)
      (hc : d.Pending user .changeEmail env.now c)
      (hwrong : app.verifyCode app.confirmationKey user.sessionId code c.codeHash = false) :
      Marks app env d (.changeEmail ip authorization code newEmail) (.api .invalidCode)
        (d.countConfirmationFailure env.now c.id)
  | wrongDeleteCode {ip code : String} {authorization : Option String} {user : CurrentUser}
      {c : Confirmation} (huser : Authenticated app env authorization d user)
      (hc : d.Pending user .deleteAccount env.now c)
      (hwrong : app.verifyCode app.confirmationKey user.sessionId code c.codeHash = false) :
      Marks app env d (.deleteAccount ip authorization code) (.api .invalidCode)
        (d.countConfirmationFailure env.now c.id)
  | replayedCode {input : OAuth.TokenRequest} {code : String} {c : AuthorizationCode}
      (hgrant : input.grantType = "authorization_code") (hcode : input.code = some code)
      (hc : d.authorizationCodes.find?
        (fun c => c.codeHash = app.hash code && c.consumedAt.isSome) = some c) :
      Marks app env d (.token input)
        (.oauth (.invalidGrant "code is invalid, expired or already used"))
        (d.revokeOpenedBy c.id env.now)
  | stolenToken {input : OAuth.TokenRequest} {client : Client} {r : RefreshToken} {s : Session}
      (hgrant : input.grantType = "refresh_token") (h : Presented app input d client r s)
      (hlive : s.Live client env.now) (hstolen : d.verdict r env.now = .stolen) :
      Marks app env d (.token input) (.oauth (.invalidGrant "refresh token was already used"))
        (d.revokeSession s.id env.now)
  | disabledAccount {input : OAuth.TokenRequest} {client : Client} {r : RefreshToken}
      {s : Session} (hgrant : input.grantType = "refresh_token")
      (h : Presented app input d client r s) (hlive : s.Live client env.now)
      (haccepted : d.verdict r env.now ≠ .stolen) (huser : ¬d.Enabled s.userId) :
      -- the bookkeeping of an accepted token is kept with the revocation
      Marks app env d (.token input) (.oauth (.invalidGrant "account is disabled"))
        ((d.settle r env.now env.now).revokeSession s.id env.now)

/-- The refusal leaves its mark, if there is one to leave, and otherwise nothing. -/
structure Request.LeavesMark (app : App) (env : Program.Env sig) (d : Database) (request : Request)
    (f : Failure) (d' : Database) : Prop where
  mark : ∀ w, request.Marks app env d f w → d' = w
  nothing : (∀ w, ¬request.Marks app env d f w) → d' = d

/-! ### Outcomes that are refusals -/

section Refusal

variable {app : App} {now : Time} {d : Database}

/-- The one row with its identifier is the only one an update by identifier can change. -/
lemma updateWhere_id_congr {ρ : Type} {id : ρ → Uuid} {rows : List ρ} {r : ρ} {set set' : ρ → ρ}
    (hids : (rows.map id).Nodup) (hr : r ∈ rows) (hset : set r = set' r) :
    updateWhere (fun r' => id r' = id r) set rows =
      updateWhere (fun r' => id r' = id r) set' rows := by
  refine List.map_congr_left fun r' hr' => ?_
  by_cases h : id r' = id r
  · rw [List.inj_on_of_nodup_map hids hr' hr h]
    simp [hset]
  · simp [h]

/-- A link that could be tried is not consumed, so counting a failure clears nothing. -/
lemma failLink_eq (hids : d.UniqueIds) {flowId : Uuid} {l : MagicLink}
    (hl : d.Candidate flowId now l) : d.failLink now l.id = d.countLinkFailure now l.id := by
  have husable := hl.usable
  simp only [MagicLink.usable, Bool.and_eq_true, Option.isNone_iff_eq_none] at husable
  have hfailures : maxFailuresPerCode ≤ l.codeFailures + 1 ↔
      l.codeFailures + 1 = maxFailuresPerCode := by
    have := hl.failures
    omega
  simp only [Database.failLink, Database.countLinkFailure]
  rw [updateWhere_id_congr hids.magicLinks (mem_of_newestLink hl.newest).1]
  simp only [hfailures, husable.1]

lemma failConfirmation_eq (hids : d.UniqueIds) {user : CurrentUser}
    {action : Me.ConfirmationAction} {c : Confirmation} (hc : d.Pending user action now c) :
    d.failConfirmation now c.id = d.countConfirmationFailure now c.id := by
  have husable := hc.usable
  simp only [Confirmation.usable, Bool.and_eq_true, Option.isNone_iff_eq_none] at husable
  have hfailures : maxFailuresPerCode ≤ c.codeFailures + 1 ↔
      c.codeFailures + 1 = maxFailuresPerCode := by
    have := hc.failures
    omega
  simp only [Database.failConfirmation, Database.countConfirmationFailure]
  rw [updateWhere_id_congr hids.confirmations (mem_of_newestConfirmation hc.newest).1]
  simp only [hfailures, husable.1]

/-- The tables a refused request never touches. -/
structure Database.SameButSessions (d d' : Database) : Prop where
  users : d'.users = d.users
  loginFlows : d'.loginFlows = d.loginFlows
  authorizationCodes : d'.authorizationCodes = d.authorizationCodes
  emailChanges : d'.emailChanges = d.emailChanges
  signingKeys : d'.signingKeys = d.signingKeys

variable {env : Program.Env sig} {request : Request} {f : Failure} {d' w : Database}

lemma Request.Marks.sameButSessions (h : request.Marks app env d f w) : d.SameButSessions w := by
  cases h with
  | disabledAccount hgrant h huser =>
    simp only [Database.settle]
    split <;> exact ⟨rfl, rfl, rfl, rfl, rfl⟩
  | _ => exact ⟨rfl, rfl, rfl, rfl, rfl⟩

/-- A mark that only this one can be. -/
lemma Request.LeavesMark.of_mark (h : request.Marks app env d f w)
    (hunique : ∀ w', request.Marks app env d f w' → w = w') :
    request.LeavesMark app env d f w :=
  ⟨hunique, fun hnone => absurd h (hnone w)⟩

lemma Request.LeavesMark.of_not (h : ∀ w, ¬request.Marks app env d f w) :
    request.LeavesMark app env d f d :=
  ⟨fun w hw => absurd hw (h w), fun _ => rfl⟩

lemma Request.LeavesMark.sameButSessions (h : request.LeavesMark app env d f d') :
    d.SameButSessions d' := by
  by_cases hmark : ∃ w, request.Marks app env d f w
  · obtain ⟨w, hw⟩ := hmark
    exact h.mark w hw ▸ hw.sameButSessions
  · rw [h.nothing (not_exists.mp hmark)]
    exact ⟨rfl, rfl, rfl, rfl, rfl⟩

variable {process : ℕ}

lemma CodeConfirmed.leavesMark {ip code : String} {flowId : Uuid} {e : ApiError}
    (h : CodeConfirmed app env process flowId code d (.error e) d') (hids : d.UniqueIds) :
    (Request.confirmMagicCode ip flowId code).LeavesMark app env d (.api e) d' := by
  generalize ha : (Except.error e : Except ApiError Login.LoginResponse) = a at h
  cases h with
  | refused e' h =>
    obtain rfl := Except.error.inj ha
    refine .of_not fun w hw => ?_
    cases hw with
    | wrongMagicCode hl hwrong => cases hwrong.symm.trans (h rfl _ hl)
  | @wrong l hl hwrong =>
    obtain rfl := Except.error.inj ha
    rw [failLink_eq hids hl]
    refine .of_mark (.wrongMagicCode hl hwrong) fun w hw => ?_
    cases hw with
    | wrongMagicCode hl' =>
      obtain rfl := Option.some.inj (hl.newest.symm.trans hl'.newest)
      rfl
  | loggedIn => cases ha

lemma ChangeRequested.leavesMark {ip code newEmail : String} {authorization : Option String}
    {e : ApiError} {mail : Option Email}
    (h : ChangeRequested app env process authorization code newEmail d (.error e) d' mail)
    (hids : d.UniqueIds) (he : e ≠ .internal) :
    (Request.changeEmail ip authorization code newEmail).LeavesMark app env d (.api e) d' := by
  generalize ha : (Except.error e : Except ApiError Unit) = a at h
  cases h with
  | refused e' h =>
    obtain rfl := Except.error.inj ha
    refine .of_not fun w hw => ?_
    cases hw with
    | wrongChangeCode huser hc hwrong => cases hwrong.symm.trans (h rfl _ _ huser hc)
  | wrong huser hc hwrong =>
    obtain rfl := Except.error.inj ha
    rw [failConfirmation_eq hids hc]
    refine .of_mark (.wrongChangeCode huser hc hwrong) fun w hw => ?_
    cases hw with
    | wrongChangeCode huser' hc' =>
      obtain rfl := huser.unique huser' hids
      obtain rfl := Option.some.inj (hc.newest.symm.trans hc'.newest)
      rfl
  | spent hc a ha' =>
    rcases ha' with rfl | rfl
    · cases ha
    · exact absurd (Except.error.inj ha) he
  | mailed => cases ha

lemma AccountDeleted.leavesMark {ip code : String} {authorization : Option String} {e : ApiError}
    (h : AccountDeleted app env authorization code d (.error e) d') (hids : d.UniqueIds) :
    (Request.deleteAccount ip authorization code).LeavesMark app env d (.api e) d' := by
  generalize ha : (Except.error e : Except ApiError Unit) = a at h
  cases h with
  | refused e' h =>
    obtain rfl := Except.error.inj ha
    refine .of_not fun w hw => ?_
    cases hw with
    | wrongDeleteCode huser hc hwrong => cases hwrong.symm.trans (h rfl _ _ huser hc)
  | wrong huser hc hwrong =>
    obtain rfl := Except.error.inj ha
    rw [failConfirmation_eq hids hc]
    refine .of_mark (.wrongDeleteCode huser hc hwrong) fun w hw => ?_
    cases hw with
    | wrongDeleteCode huser' hc' =>
      obtain rfl := huser.unique huser' hids
      obtain rfl := Option.some.inj (hc.newest.symm.trans hc'.newest)
      rfl
  | deleted => cases ha

lemma Exchanged.leavesMark {input : OAuth.TokenRequest} {e : OAuthError}
    (h : Exchanged app env process input d (.error e) d')
    (hgrant : input.grantType = "authorization_code") :
    (Request.token input).LeavesMark app env d (.oauth e) d' := by
  have hother : input.grantType ≠ "refresh_token" := by
    rw [hgrant]
    decide
  generalize ha : (Except.error e : Except OAuthError OAuth.TokenResponse) = a at h
  cases h with
  | refused e' h =>
    obtain rfl := Except.error.inj ha
    refine .of_not fun w hw => ?_
    generalize hf : Failure.oauth e = f at hw
    cases hw with
    | replayedCode _ hcode hc => cases hc.symm.trans (h (Failure.oauth.inj hf) _ hcode)
    | stolenToken hrefresh => exact hother hrefresh
    | disabledAccount hrefresh => exact hother hrefresh
  | replayed hcode hc =>
    obtain rfl := Except.error.inj ha
    refine .of_mark (.replayedCode hgrant hcode hc) fun w hw => ?_
    generalize Failure.oauth _ = f at hw
    cases hw with
    | replayedCode _ hcode' hc' =>
      obtain rfl := Option.some.inj (hcode.symm.trans hcode')
      obtain rfl := Option.some.inj (hc.symm.trans hc')
      rfl
    | stolenToken hrefresh => exact absurd hrefresh hother
    | disabledAccount hrefresh => exact absurd hrefresh hother
  | issued => cases ha

lemma Refreshed.leavesMark {input : OAuth.TokenRequest} {e : OAuthError}
    (h : Refreshed app env process input d (.error e) d')
    (hgrant : input.grantType = "refresh_token") (hutc : env.utc = env.now) :
    (Request.token input).LeavesMark app env d (.oauth e) d' := by
  have hother : input.grantType ≠ "authorization_code" := by
    rw [hgrant]
    decide
  -- the other refusals have an error of their own
  have hnothing : e ≠ .invalidGrant "refresh token was already used" →
      e ≠ .invalidGrant "account is disabled" →
        (Request.token input).LeavesMark app env d (.oauth e) d := by
    refine fun hused hdisabled => .of_not fun w hw => ?_
    generalize hf : Failure.oauth e = f at hw
    cases hw with
    | replayedCode hcode => exact hother hcode
    | stolenToken => exact hused (Failure.oauth.inj hf)
    | disabledAccount => exact hdisabled (Failure.oauth.inj hf)
  generalize ha : (Except.error e : Except OAuthError OAuth.TokenResponse) = a at h
  cases h with
  | @stolen client r s h hlive hverdict =>
    obtain rfl := Except.error.inj ha
    rw [hutc] at hlive hverdict
    refine .of_mark (.stolenToken hgrant h hlive hverdict) fun w hw => ?_
    generalize Failure.oauth _ = f at hw
    cases hw with
    | replayedCode hcode => exact absurd hcode hother
    | stolenToken _ h' =>
      obtain ⟨-, -, rfl⟩ := h.unique h'
      rfl
    | disabledAccount _ h' _ haccepted =>
      obtain ⟨-, rfl, -⟩ := h.unique h'
      exact absurd hverdict haccepted
  | @disabled client r s h hlive hverdict huser =>
    obtain rfl := Except.error.inj ha
    rw [hutc] at hlive hverdict ⊢
    refine .of_mark (.disabledAccount hgrant h hlive hverdict huser) fun w hw => ?_
    generalize Failure.oauth _ = f at hw
    cases hw with
    | replayedCode hcode => exact absurd hcode hother
    | stolenToken _ h' _ hstolen =>
      obtain ⟨-, rfl, -⟩ := h.unique h'
      exact absurd hstolen hverdict
    | disabledAccount _ h' =>
      obtain ⟨-, rfl, rfl⟩ := h.unique h'
      rfl
  | issued => cases ha
  | _ =>
    obtain rfl := Except.error.inj ha
    exact hnothing (by simp) (by simp)

/-- What is answered with an error leaves its mark and nothing else, unless the error is a 5xx. -/
lemma Request.Outcome.leavesMark {events : List Event} (hids : d.UniqueIds)
    (h : request.Outcome app env process d (.error f) d' events)
    (hf : f.isServerError = false) (hutc : env.utc = env.now) :
    request.LeavesMark app env d f d' := by
  generalize hresponse : (Except.error f : Response) = response at h
  cases h with
  | createFlow h =>
    obtain ⟨e, rfl, -⟩ := ofApi_eq_error hresponse
    cases h
    exact .of_not fun w hw => by cases hw
  | requestMagicLink h =>
    obtain ⟨e, rfl, rfl⟩ := ofApi_eq_error hresponse
    cases h with
    | refused _ he => exact .of_not fun w hw => by cases hw
    | failed => exact absurd hf (by decide)
  | confirmMagicLink h =>
    obtain ⟨e, rfl, -⟩ := ofApi_eq_error hresponse
    cases h
    exact .of_not fun w hw => by cases hw
  | confirmMagicCode h =>
    obtain ⟨e, rfl, rfl⟩ := ofApi_eq_error hresponse
    exact h.leavesMark hids
  | exchange hgrant h =>
    obtain ⟨e, rfl, rfl⟩ := ofOAuth_eq_error hresponse
    exact h.leavesMark hgrant
  | refresh hgrant h =>
    obtain ⟨e, rfl, rfl⟩ := ofOAuth_eq_error hresponse
    exact h.leavesMark hgrant hutc
  | otherGrant hcode hrefresh =>
    refine .of_not fun w hw => ?_
    cases hw with
    | replayedCode hgrant => exact hcode hgrant
    | stolenToken hgrant => exact hrefresh hgrant
    | disabledAccount hgrant => exact hrefresh hgrant
  | revoke hclient => cases hresponse
  | revokeRefused hclient => exact .of_not fun w hw => by cases hw
  | getMe => exact .of_not fun w hw => by cases hw
  | listSessions => exact .of_not fun w hw => by cases hw
  | revokeSession h =>
    obtain ⟨e, rfl, -⟩ := ofApi_eq_error hresponse
    cases h
    exact .of_not fun w hw => by cases hw
  | requestConfirmation h =>
    obtain ⟨e, rfl, -⟩ := ofApi_eq_error hresponse
    cases h
    exact .of_not fun w hw => by cases hw
  | changeEmail h hmail =>
    obtain ⟨e, rfl, rfl⟩ := ofApi_eq_error hresponse
    refine h.leavesMark hids ?_
    rintro rfl
    exact absurd hf (by decide)
  | deleteAccount h =>
    obtain ⟨e, rfl, rfl⟩ := ofApi_eq_error hresponse
    exact h.leavesMark hids
  | confirmEmailChange h =>
    obtain ⟨e, rfl, -⟩ := ofApi_eq_error hresponse
    cases h
    exact .of_not fun w hw => by cases hw
  | purge h => cases hresponse
  | setDisabled => cases hresponse

/-- A request refused with an error other than a 5xx, served from any reachable state, leaves its
mark, if the refusal has one, and otherwise the database as it was. In any case no account, no flow
and no change of address is touched, and no code or token is spent. -/
theorem refused_marks {app : App} (huuid : Function.Injective app.uuid) {s : Server}
    (hs : Reachable app s) (time : Time) (reply : (q : Question) → Reply q) (request : Request)
    {f : Failure} (hresponse : (serve app time reply request s).response = .error f)
    (hf : f.isServerError = false) :
    (∀ d', request.Marks app ⟨time, time, reply⟩ s.db f d' →
      (serve app time reply request s).after.db = d') ∧
    ((∀ d', ¬request.Marks app ⟨time, time, reply⟩ s.db f d') →
      (serve app time reply request s).after.db = s.db) ∧
    s.db.SameButSessions (serve app time reply request s).after.db := by
  have hkeyed := hs.keyed huuid
  have houtcome := serve_outcome huuid hkeyed time reply request
  rw [hresponse] at houtcome
  have hmark := houtcome.leavesMark hkeyed.uniqueIds hf rfl
  exact ⟨hmark.mark, hmark.nothing, hmark.sameButSessions⟩

/-- A wrong code, typed on the flow of `exampleLink`: the one link counts it. -/
theorem refused_marks_wrong_code :
    ∃ l ∈ (script exampleApp exampleReply .empty exampleLink).2.db.magicLinks,
      (serve exampleApp 2 exampleReply (.confirmMagicCode "ip" 0 "999999")
          (script exampleApp exampleReply .empty exampleLink).2).after.db =
        (script exampleApp exampleReply .empty exampleLink).2.db.countLinkFailure 2 l.id := by
  have hchecks : (((script exampleApp exampleReply .empty exampleLink).2.db.newestLink 0).any
      fun l => l.usable 2 && l.codeFailures < maxFailuresPerCode &&
        (script exampleApp exampleReply .empty exampleLink).2.db.linkFailures l.email (2 - days 1) <
          maxFailuresPerDay &&
        !exampleApp.verifyCode exampleApp.magicLinkKey 0 "999999" l.codeHash) = true := by
    decide +kernel
  obtain ⟨l, hl, hchecks⟩ := (Option.any_eq_true _ _).mp hchecks
  simp only [Bool.and_eq_true, decide_eq_true_eq, Bool.not_eq_true'] at hchecks
  obtain ⟨⟨⟨husable, hfailures⟩, hbudget⟩, hwrong⟩ := hchecks
  obtain ⟨hmark, -⟩ := refused_marks exampleApp_uuid_injective
    (@script_reachable exampleApp exampleReply exampleLink (by decide)) 2 exampleReply
    (.confirmMagicCode "ip" 0 "999999") (f := .api .invalidCode) (by decide +kernel) (by decide)
  refine ⟨l, (mem_of_newestLink hl).1, hmark _ (.wrongMagicCode ⟨hl, husable, hfailures, ?_⟩ hwrong)⟩
  exact hbudget

end Refusal

end Bauth
